import Ecos.Sqlite.PagerCache
import Mathlib.Tactic.IntervalCases

namespace Ecos.Sqlite.Rollback

open Ecos.Lib Program

/-!
# Rolling back

* `PagerSafe` — a program of the pager keeps the database recoverable at each of its calls; the
  rules for the calls;
* `Protected` — the disk while there is a journal, and `Protected.update_db`;
* `Rolling` — how far the rollback has come;
* `Plays` — the segments that `playbackLoop` goes through, for a hot journal and for a rollback by
  the process that wrote the journal;
* `Rolling.playbackOnePage`, `Rolling.playbackRecords`, `Rolling.playbackLoop` — it comes to its
  end.
-/

variable {C : PagerConfig} {move : Image → Image → Prop} {B : Image} {D : Disk}

/-- The program keeps the database recoverable, after each of its calls, and ends as `Q` says. -/
abbrev PagerSafe (C : PagerConfig) (move : Image → Image → Prop) {α : Type} (p : PagerProgram α)
    (Q : α → Disk → Image → Prop) (D : Disk) (B : Image) : Prop :=
  p.Safe pagerMachine (fun D B => Recoverable C B D) move Q D B

/-- **The rule of sequencing.**  Behind the first program the second one is safe. -/
theorem PagerSafe.bind {α β : Type} {p : PagerProgram α} {f : α → PagerProgram β}
    {Q : β → Disk → Image → Prop}
    (h : PagerSafe C move p (fun a D B => PagerSafe C move (f a) Q D B) D B) :
    PagerSafe C move (p >>= f) Q D B :=
  safe_bind.mpr h

/-! ### Calls -/

section

variable (hmove : move B B) (hrec : Recoverable C B D)
include hmove hrec

/-- The size of a file is that of its current content. -/
theorem safe_fileSize {f : FileId} {Q : Nat → Disk → Image → Prop}
    (h : Q (D.file f).cur.size D B) : PagerSafe C move (osFileSize f) Q D B :=
  safe_step hmove hrec fun _ => h

/-- A read gives the current bytes, and whether there were enough of them. -/
theorem safe_read {f : FileId} {o n : Nat} {Q : List UInt8 × Bool → Disk → Image → Prop}
    (h : Q ((D.file f).cur.read o n, decide (o + n ≤ (D.file f).cur.size)) D B) :
    PagerSafe C move (osRead f o n) Q D B :=
  safe_step hmove hrec fun _ => h

/-- A write changes the current content, and what was there stays possible until the next sync. -/
theorem safe_write {f : FileId} {o : Nat} {d : List UInt8} {Q : Unit → Disk → Image → Prop}
    (h : Q () (D.update f ((D.file f).cur.write o d)) B) : PagerSafe C move (osWrite f o d) Q D B :=
  safe_step hmove hrec fun _ => h

/-- A truncation changes the current content, and what was there stays possible until the next
    sync. -/
theorem safe_truncate {f : FileId} {n : Nat} {Q : Unit → Disk → Image → Prop}
    (h : Q () (D.update f ((D.file f).cur.truncate n)) B) :
    PagerSafe C move (osTruncate f n) Q D B :=
  safe_step hmove hrec fun _ => h

/-- A sync makes the current contents those of the disk. -/
theorem safe_sync {f : FileId} {Q : Unit → Disk → Image → Prop} (h : Q () (D.sync f) B) :
    PagerSafe C move (osSync f) Q D B :=
  safe_step hmove hrec fun _ => h

/-- Is there a journal? The answer is that of the disk. -/
theorem safe_access {Q : Bool → Disk → Image → Prop} (h : Q D.journal.isSome D B) :
    PagerSafe C move osAccess Q D B :=
  safe_step hmove hrec fun _ => h

/-- The journal is opened if it is there, and not created. -/
theorem safe_openJournal {Q : Bool → Disk → Image → Prop} (h : Q D.journal.isSome D B) :
    PagerSafe C move (osOpenJournal false) Q D B :=
  safe_step hmove hrec fun _ => h

/-- The journal is created, empty, which changes nothing that a crash may leave. -/
theorem safe_createJournal {Q : Bool → Disk → Image → Prop} (hnone : D.journal = none)
    (h : Q true { D with journal := some (.synced .empty) } B) :
    PagerSafe C move (osOpenJournal true) Q D B := by
  refine safe_step hmove hrec fun e => ?_
  have hperform : pagerMachine.perform D e (.openJournal true)
      = (true, { D with journal := some (.synced .empty) }) := if_neg (by simp [hnone])
  rw [hperform]
  exact h

/-- A lock may be granted or refused, and the disk does not change. -/
theorem safe_lock {l : LockType} {Q : Bool → Disk → Image → Prop} (h : ∀ b, Q b D B) :
    PagerSafe C move (osLock l) Q D B :=
  safe_step hmove hrec fun e => h e.granted

/-- A lock is given back, and the disk does not change. -/
theorem safe_unlock {l : LockType} {Q : Unit → Disk → Image → Prop} (h : Q () D B) :
    PagerSafe C move (osUnlock l) Q D B :=
  safe_step hmove hrec fun _ => h

/-- Nobody else has the reserved lock, since this process is the only one to write. -/
theorem safe_checkReservedLock {Q : Bool → Disk → Image → Prop} (h : Q false D B) :
    PagerSafe C move osCheckReservedLock Q D B :=
  safe_step hmove hrec fun _ => h

/-- Any number may come, so the program has to go well with each. -/
theorem safe_randomness {Q : BitVec 32 → Disk → Image → Prop} (h : ∀ v, Q v D B) :
    PagerSafe C move osRandomness Q D B :=
  safe_step hmove hrec fun e => h e.random

/-- Any page, or none, may be recycled, so the program has to go well with each. -/
theorem safe_recycle {Q : Option Nat → Disk → Image → Prop} (h : ∀ v, Q v D B) :
    PagerSafe C move osRecycle Q D B :=
  safe_step hmove hrec fun e => h e.victim

end

/-- When the journal is deleted, the database may change to one that can be recovered without it. -/
theorem safe_delete {B' : Image} {Q : Unit → Disk → Image → Prop} (hmove : move B B')
    (hrec : Recoverable C B D)
    (h : Q () D.delete B') :
    PagerSafe C move osDelete Q D B :=
  ⟨hrec, fun _ => ⟨B', hmove, h⟩⟩

/-! ### The disk while there is a journal -/

/-- The journal has the segments `sealed` for good, and the database file the other pages. -/
structure Protected (C : PagerConfig) (B : Image) (D : Disk) (J : Storage UInt8)
    (sealed : List Segment) : Prop where
  journal : D.journal = some J
  safe : JournalSafe C B J sealed
  db : ∀ v ∈ D.dbVersions, DbHolds C B (pagesOf sealed) v
  whole : sealed = [] → ∀ v ∈ D.dbVersions, v.size = B.n * C.pageSize

/-- A version of the database after an update is the new content, or an old version. -/
theorem mem_dbVersions_update {c v : Content UInt8} (h : v ∈ (D.update .db c).dbVersions) :
    v = c ∨ v ∈ D.dbVersions := by
  have hupdate : (D.update .db c).dbVersions
      = if D.exposed || !D.deleted.isEmpty then [c] else c :: D.db.versions := rfl
  rw [hupdate] at h
  unfold Disk.dbVersions
  split at h
  · exact .inl (List.mem_singleton.mp h)
  · next hsafe =>
    have hexp : ¬D.exposed = true := fun hexp => hsafe (by rw [hexp, Bool.true_or])
    rw [if_neg hexp]
    exact List.mem_cons.mp h

/-- The current content of the database file is one of its versions. -/
theorem cur_mem_dbVersions : D.db.cur ∈ D.dbVersions := by
  unfold Disk.dbVersions
  split
  · exact List.mem_singleton_self _
  · exact D.db.cur_mem_versions

namespace Protected

variable {J : Storage UInt8} {sealed : List Segment} {c : Content UInt8} {p : Nat}

/-- Under a journal that protects it the committed image can be recovered. -/
theorem recoverable (h : Protected C B D J sealed) : Recoverable C B D := by
  unfold Recoverable
  rw [h.journal]
  exact ⟨sealed, h.safe, h.db, h.whole⟩

/-- The journal is the file that protects the image. -/
theorem file_journal (h : Protected C B D J sealed) : D.file .journal = J := by
  unfold Disk.file
  rw [h.journal]
  rfl

/-- The database file is changed in pages that are in the journal, or to what it was. -/
theorem update_db (h : Protected C B D J sealed) (hc : DbHolds C B (pagesOf sealed) c)
    (hsize : sealed = [] → c.size = B.n * C.pageSize) :
    Protected C B (D.update .db c) J sealed where
  journal := h.journal
  safe := h.safe
  db v hv := by
    rcases mem_dbVersions_update hv with rfl | hv
    · exact hc
    · exact h.db v hv
  whole hnil v hv := by
    rcases mem_dbVersions_update hv with rfl | hv
    · exact hsize hnil
    · exact h.whole hnil v hv

/-- Outside of the protected pages the current file holds the committed image. -/
theorem holds (h : Protected C B D J sealed) : DbHolds C B (pagesOf sealed) D.db.cur :=
  h.db _ cur_mem_dbVersions

end Protected

/-! ### Master journals and headers -/

/-- The file does not end like one with the name of a master journal. -/
def NoMaster (c : Content UInt8) : Prop := c.read (c.size - 8) 8 ≠ aJournalMagic

/-- The sizes of a page and of a sector are in the range that `readJournalHdr` accepts. -/
theorem two_pow_in_range {k : Nat} (h9 : 9 ≤ k) (h15 : k ≤ 15) :
    ¬BitVec.ofNat 32 (2 ^ k) < 512 ∧ ¬32768 < BitVec.ofNat 32 (2 ^ k) ∧
    ¬0x0100000 < BitVec.ofNat 32 (2 ^ k) ∧
    (BitVec.ofNat 32 (2 ^ k) - 1) &&& BitVec.ofNat 32 (2 ^ k) = 0 := by
  interval_cases k <;> decide

section

variable {J : Storage UInt8} (hmove : move B B) (hrec : Recoverable C B D)
  (hfile : D.file .journal = J)
include hmove hrec hfile

/-- A journal without a master journal is read as such. -/
theorem safe_readMasterJournal (hno : NoMaster J.cur)
    {Q : PagerRc × List UInt8 → Disk → Image → Prop} (h : Q (.OK, []) D B) :
    PagerSafe C move readMasterJournal Q D B := by
  unfold readMasterJournal
  refine .bind (safe_fileSize hmove hrec ?_)
  rw [hfile]
  split
  · exact h
  refine .bind (safe_read hmove hrec ?_)
  dsimp -zeta only
  extract_lets len
  split
  · exact h
  refine .bind (safe_read hmove hrec ?_)
  dsimp -zeta only
  extract_lets cksum
  refine .bind (safe_read hmove hrec ?_)
  dsimp -zeta only
  rw [hfile, if_pos (show _ ≠ _ from hno)]
  exact h

/-- There is no header, or not as much of one as it takes. -/
theorem safe_readJournalHdr_done {P : Pager}
    (hdone : J.cur.size < journalHdrOffset C P.journalOff + C.sectorSize ∨
      J.cur.read (journalHdrOffset C P.journalOff) 8 ≠ aJournalMagic)
    {Q : PagerRc × Nat × Nat × Pager → Disk → Image → Prop}
    (h : Q (.DONE, 0, 0, { P with journalOff := journalHdrOffset C P.journalOff }) D B) :
    PagerSafe C move (readJournalHdr C P J.cur.size) Q D B := by
  unfold readJournalHdr
  extract_lets P'
  split
  · exact h
  next hlong =>
  refine .bind (safe_read hmove hrec ?_)
  dsimp -zeta only
  rw [hfile, if_pos (hdone.resolve_left hlong)]
  exact h

/-- There is a header, and it is read as it was written. -/
theorem safe_readJournalHdr_ok {P : Pager} {nRec cksumInit : BitVec 32} {n : Nat}
    (hhdr : J.cur.read (journalHdrOffset C P.journalOff) C.sectorSize
      = journalHdr C nRec cksumInit n)
    (hsize : journalHdrOffset C P.journalOff + C.sectorSize ≤ J.cur.size) (hn : n ≤ 2147483647)
    {Q : PagerRc × Nat × Nat × Pager → Disk → Image → Prop}
    (h : Q (.OK, nRec.toNat, n,
      { P with journalOff := journalHdrOffset C P.journalOff + C.sectorSize, cksumInit }) D B) :
    PagerSafe C move (readJournalHdr C P J.cur.size) Q D B := by
  obtain ⟨hmagic, hnRec, hcksum, hdbSize, hsector, hpage⟩ := read_journalHdr hhdr
  obtain ⟨hp1, hp2, -, hp4⟩ :=
    two_pow_in_range (Nat.le_trans C.nine_le C.sectorBits_le) C.pageBits_le
  obtain ⟨hs1, -, hs3, hs4⟩ :=
    two_pow_in_range C.nine_le (Nat.le_trans C.sectorBits_le C.pageBits_le)
  have hn' : (BitVec.ofNat 32 n).toNat = n := by
    rw [BitVec.toNat_ofNat]
    omega
  unfold readJournalHdr
  extract_lets P' iHdrOff
  rw [if_neg (show ¬J.cur.size < P'.journalOff + C.sectorSize from Nat.not_lt.mpr hsize)]
  refine .bind (safe_read hmove hrec ?_)
  dsimp -zeta only
  rw [hfile, hmagic, if_neg (fun hne => hne rfl)]
  refine .bind (safe_read hmove hrec (.bind (safe_read hmove hrec
    (.bind (safe_read hmove hrec ?_)))))
  dsimp -zeta only
  rw [hfile, hnRec, hcksum, hdbSize, hn']
  extract_lets P'' pNRec pDbSize
  -- the sizes are read from the first header only
  split
  · refine .bind (safe_read hmove hrec (.bind (safe_read hmove hrec ?_)))
    dsimp -zeta only
    rw [hfile, hsector, hpage]
    extract_lets iSectorSize iPageSize
    rw [if_neg, if_neg]
    · exact h
    · simp [iSectorSize, iPageSize]
    · simp only [not_or, not_not]
      exact ⟨hp1, hs1, hp2, hs3, hp4, hs4⟩
  · exact h

end

/-! ### Restoring pages -/

/-- What a rollback leaves alone of the pager while it goes through the records. -/
structure SamePlay (P P' : Pager) : Prop where
  state : P'.state = P.state
  jfdOpen : P'.jfdOpen = P.jfdOpen
  journalHdr : P'.journalHdr = P.journalHdr

/-- The playback does not see the difference of three pagers, when it sees none between
    neighbours. -/
theorem SamePlay.trans {P P' P'' : Pager} (h : SamePlay P P') (h' : SamePlay P' P'') :
    SamePlay P P'' :=
  ⟨h'.state.trans h.state, h'.jfdOpen.trans h.jfdOpen, h'.journalHdr.trans h.journalHdr⟩

/-- A page of the cache, as far as its form goes: its number and its length. -/
def PgHdr.Valid (C : PagerConfig) (pg : PgHdr) : Prop :=
  1 ≤ pg.pgno ∧ pg.pgno ≤ 2147483647 ∧ pg.pgno ≠ C.mjPgno ∧ pg.data.length = C.pageSize

/-- The records `todo`, each with `isUnsync`, are still to be played back: what else there is in the
    file and in the cache is of the image. -/
structure Rolling (C : PagerConfig) (B : Image) (D : Disk) (P : Pager) (J : Storage UInt8)
    (sealed : List Segment) (todo : List (PageRec × Bool)) : Prop where
  prot : Protected C B D J sealed
  unique : P.Unique
  valid : ∀ pg ∈ P.cache, pg.Valid C
  recorded : ∀ x ∈ todo, B.Recorded C x.1
  file : ∀ p, B.Used C p → HasPage C D.db.cur p (B.page p) ∨
    PagerState.EXCLUSIVE.num ≤ P.state.num ∧ (P.lookup p).all (!·.needSync) = true ∧
      ∃ r, (r, false) ∈ todo ∧ r.pgno = p
  cached : ∀ p pg, B.Used C p → P.lookup p = some pg → pg.data = B.page p ∨
    ∃ x ∈ todo, x.1.pgno = p

/-- The file and the pager have the size of the image. -/
def Sized (C : PagerConfig) (B : Image) (D : Disk) (P : Pager) : Prop :=
  D.db.cur.size = B.n * C.pageSize ∧ P.dbSize = B.n

section

variable {P : Pager} {J : Storage UInt8} {sealed : List Segment} {todo : List (PageRec × Bool)}
  {r : PageRec} {isUnsync : Bool}

/-- The cache is thrown away, and the rollback goes on without it. -/
theorem Rolling.reset (h : Rolling C B D P J sealed todo) :
    Rolling C B D P.reset J sealed todo where
  prot := h.prot
  unique := List.nodup_nil
  valid _ hpg := absurd hpg List.not_mem_nil
  recorded := h.recorded
  file p hp := (h.file p hp).imp_right fun ⟨hstate, _, hr⟩ => ⟨hstate, rfl, hr⟩
  cached p pg _ hpg := by cases hpg

/-- Only the cache and the state of the pager matter for a rollback. -/
theorem Rolling.congr {P' : Pager} (h : Rolling C B D P J sealed todo) (hcache : P'.cache = P.cache)
    (hstate : P'.state = P.state) : Rolling C B D P' J sealed todo := by
  have hlookup : ∀ p, P'.lookup p = P.lookup p := fun p => congrArg (List.find? _) hcache
  have hunique : P'.Unique := by
    unfold Pager.Unique
    rw [hcache]
    exact h.unique
  refine ⟨h.prot, hunique, hcache ▸ h.valid, h.recorded, fun p hp => ?_, fun p pg hp hpg => ?_⟩
  · rw [hstate, hlookup]
    exact h.file p hp
  · rw [hlookup] at hpg
    exact h.cached p pg hp hpg

/-- What `restore` does to the page: it has its old content, and is clean. -/
def restored (aData : List UInt8) (pg : PgHdr) : PgHdr :=
  { pg with data := aData, dirty := false, needSync := false }

/-- A page that is restored is changed in the cache, and nothing else is but the file version. -/
theorem restore_eq (P : Pager) (p : Nat) (aData : List UInt8) : ∃ dbFileVers,
    P.restore p aData = { P.mapPage p (restored aData) with dbFileVers } := by
  unfold Pager.restore
  extract_lets P'
  split
  · exact ⟨fileVers aData, rfl⟩
  · exact ⟨P.dbFileVers, rfl⟩

/-- A record was played back, and its page holds the image again. -/
theorem Rolling.restore {D' : Disk} (h : Rolling C B D P J sealed ((r, isUnsync) :: todo))
    (hprot : Protected C B D' J sealed) (hlen : r.data.length = C.pageSize)
    (hkeep : ∀ p, B.Used C p → HasPage C D.db.cur p (B.page p) → HasPage C D'.db.cur p (B.page p))
    (hnew : PagerState.EXCLUSIVE.num ≤ P.state.num → (P.lookup r.pgno).all (!·.needSync) = true →
      isUnsync = false → HasPage C D'.db.cur r.pgno r.data) :
    Rolling C B D' (P.mapPage r.pgno (restored r.data)) J sealed todo := by
  have hrec := h.recorded _ (List.mem_cons_self ..)
  refine ⟨hprot, h.unique.mapPage fun _ => rfl, ?_,
    fun x hx => h.recorded x (List.mem_cons_of_mem _ hx), ?_, ?_⟩
  · intro pg hpg
    obtain ⟨pg', hpg', rfl⟩ := List.mem_map.mp hpg
    obtain ⟨h1, h2, h3, h4⟩ := h.valid pg' hpg'
    split
    · exact ⟨h1, h2, h3, hlen⟩
    · exact ⟨h1, h2, h3, h4⟩
  · intro p hp
    rcases h.file p hp with hhas | ⟨hexcl, hsync, r', hr', rfl⟩
    · exact .inl (hkeep p hp hhas)
    -- the record of the page is this one, or it is still to come
    rcases List.mem_cons.mp hr' with heq | hr'
    · obtain ⟨rfl, rfl⟩ := Prod.mk.inj heq
      refine .inl ?_
      rw [← hrec.2]
      exact hnew hexcl hsync rfl
    · refine .inr ⟨hexcl, ?_, r', hr', rfl⟩
      rw [Pager.lookup_mapPage (f := restored r.data) fun _ => rfl]
      split
      · cases P.lookup r'.pgno with
        | none => rfl
        | some pg => rfl
      · exact hsync
  · intro p pg hp hpg
    rw [Pager.lookup_mapPage (f := restored r.data) fun _ => rfl] at hpg
    split at hpg
    · next heq =>
      subst heq
      obtain ⟨pg, -, rfl⟩ := Option.map_eq_some_iff.mp hpg
      exact .inl hrec.2
    · next hne =>
      rcases h.cached p pg hp hpg with hdata | ⟨x, hx, hxp⟩
      · exact .inl hdata
      · rcases List.mem_cons.mp hx with rfl | hx
        · exact absurd hxp.symm hne
        · exact .inr ⟨x, hx, hxp⟩

/-- **A record** is played back, to the file and to the cache. -/
theorem Rolling.playbackOnePage (hmove : move B B) (hB : B.Valid C)
    (h : Rolling C B D P J sealed ((r, isUnsync) :: todo)) (hsized : Sized C B D P)
    (hread : J.cur.read P.journalOff C.journalPgSz = journalRec C P.cksumInit r)
    (hsize : P.journalOff + C.journalPgSz ≤ J.cur.size) :
    PagerSafe C move (pagerPlaybackOnePage C P isUnsync) (fun x D' B' => x.1 = .OK ∧ B' = B ∧
      x.2.journalOff = P.journalOff + C.journalPgSz ∧ x.2.cksumInit = P.cksumInit ∧
      SamePlay P x.2 ∧ Sized C B D' x.2 ∧ Rolling C B D' x.2 J sealed todo) D B := by
  have hrec := h.prot.recoverable
  have hpgsz : C.journalPgSz = C.pageSize + 8 := rfl
  have hrecorded : B.Recorded C r := h.recorded _ (List.mem_cons_self ..)
  obtain ⟨⟨hpos, hle, hmj⟩, hdata⟩ := hrecorded
  have hlen : r.data.length = C.pageSize := by
    rw [hdata]
    exact hB.length_page _
  obtain ⟨hpgno, haData, hcksum⟩ := read_journalRec hlen hread
  have hn := hB.n_le
  have hp : (BitVec.ofNat 32 r.pgno).toNat = r.pgno := by
    rw [BitVec.toNat_ofNat]
    omega
  unfold pagerPlaybackOnePage
  refine .bind (safe_read hmove hrec ?_)
  dsimp -zeta only
  rw [h.prot.file_journal, hpgno, decide_eq_true (by omega), if_neg (by decide)]
  refine .bind (safe_read hmove hrec ?_)
  dsimp -zeta only
  rw [h.prot.file_journal, haData, decide_eq_true (by omega), if_neg (by decide), hp]
  extract_lets pgno P'
  have hdbSize : ¬P'.dbSize < r.pgno := by
    rw [show P'.dbSize = B.n from hsized.2]
    omega
  have hoff : P'.journalOff - 4 = P.journalOff + C.pageSize + 4 := by
    show P.journalOff + C.journalPgSz - 4 = _
    omega
  rw [if_neg (not_or.mpr ⟨Nat.pos_iff_ne_zero.mp hpos, hmj⟩), if_neg hdbSize]
  refine .bind (safe_read hmove hrec ?_)
  dsimp -zeta only
  rw [h.prot.file_journal, hoff, hcksum, decide_eq_true (by omega), if_neg (by decide),
    if_neg (fun hne => hne rfl)]
  have hroll : Rolling C B D P' J sealed ((r, isUnsync) :: todo) := h.congr rfl rfl
  split
  · next hcond =>
    -- the page goes into the file
    refine .bind (safe_write hmove hrec ?_)
    have hroll' : Rolling C B D { P' with dbFileSize := max P'.dbFileSize r.pgno } J sealed
        ((r, isUnsync) :: todo) := h.congr rfl rfl
    have hsize' : (D.db.cur.write ((r.pgno - 1) * C.pageSize) r.data).size = D.db.cur.size := by
      rw [size_write_page hpos hlen, hsized.1]
      exact Nat.max_eq_left (Nat.mul_le_mul_right _ hle)
    have hprot := h.prot.update_db (h.prot.holds.write hpos hlen fun _ _ => hdata) fun hnil =>
      hsize'.trans (h.prot.whole hnil _ cur_mem_dbVersions)
    obtain ⟨vers, heq⟩ := restore_eq
      { P' with dbFileSize := max P'.dbFileSize r.pgno } r.pgno r.data
    rw [heq]
    refine ⟨rfl, rfl, rfl, rfl, ⟨rfl, rfl, rfl⟩, ⟨hsize'.trans hsized.1, hsized.2⟩, ?_⟩
    refine (hroll'.restore hprot hlen (fun p hused hhas => ?_) fun _ _ _ => ?_).congr rfl rfl
    · by_cases hpr : p = r.pgno
      · subst hpr
        rw [← hdata]
        exact hasPage_write hpos hlen
      · exact hhas.write hpos hused.1 hpr hlen
    · exact hasPage_write hpos hlen
  · -- the page is only restored in the cache
    next hcond =>
    obtain ⟨vers, heq⟩ := restore_eq P' r.pgno r.data
    rw [heq]
    refine ⟨rfl, rfl, rfl, rfl, ⟨rfl, rfl, rfl⟩, hsized, ?_⟩
    refine (hroll.restore h.prot hlen (fun _ _ hhas => hhas) fun h1 h2 h3 => ?_).congr rfl rfl
    exact absurd ⟨h1, h2, h3⟩ hcond

/-- **The records of a segment** are played back one after the other, and those of the others are
    left. -/
theorem Rolling.playbackRecords (hmove : move B B) (hB : B.Valid C) {recs : List PageRec} {m : Nat}
    (h : Rolling C B D P J sealed (recs.map (·, isUnsync) ++ todo)) (hsized : Sized C B D P)
    (hrecs : Records C J.cur P.cksumInit P.journalOff recs m) (hm : m ≤ J.cur.size)
    (needPagerReset : Bool) :
    PagerSafe C move (playbackRecords C isUnsync recs.length P needPagerReset) (fun x D' B' =>
      x.1 = .OK ∧ B' = B ∧ x.2.1.journalOff = m ∧ SamePlay P x.2.1 ∧ Sized C B D' x.2.1 ∧
      Rolling C B D' x.2.1 J sealed todo) D B := by
  induction recs generalizing P D needPagerReset with
  | nil => exact ⟨rfl, rfl, hrecs, ⟨rfl, rfl, rfl⟩, hsized, h⟩
  | cons r recs ih =>
    obtain ⟨hread, hrest⟩ := hrecs
    have hend := hrest.end_eq
    -- the cache may be thrown away first
    obtain ⟨P₁, hP₁, hroll, hsame⟩ : ∃ P₁, (if needPagerReset then P.reset else P) = P₁ ∧
        Rolling C B D P₁ J sealed ((r :: recs).map (·, isUnsync) ++ todo) ∧
        (P₁.journalOff = P.journalOff ∧ P₁.cksumInit = P.cksumInit ∧ SamePlay P P₁ ∧
          Sized C B D P₁) := by
      split
      · exact ⟨_, rfl, h.reset, rfl, rfl, ⟨rfl, rfl, rfl⟩, hsized⟩
      · exact ⟨_, rfl, h, rfl, rfl, ⟨rfl, rfl, rfl⟩, hsized⟩
    obtain ⟨hoff, hcksum, hplay, hsized₁⟩ := hsame
    rw [List.length_cons]
    unfold Rollback.playbackRecords
    dsimp -zeta only
    rw [hP₁]
    refine .bind ((hroll.playbackOnePage hmove hB hsized₁ ?_ ?_).imp ?_)
    · rw [hoff, hcksum]
      exact hread
    · rw [hoff]
      omega
    rintro ⟨rc, P₂⟩ D' B ⟨rfl, rfl, hoff₂, hcksum₂, hplay₂, hsized₂, hroll₂⟩
    dsimp only at hoff₂ hcksum₂ hplay₂ hsized₂ hroll₂
    show PagerSafe C move (if PagerRc.OK = .OK then _ else _) _ D' _
    rw [if_pos rfl]
    refine (ih hroll₂ hsized₂ ?_ false).imp ?_
    · rw [hcksum₂, hcksum, hoff₂, hoff]
      exact hrest
    · rintro x D'' B ⟨hrc, rfl, hoff₃, hplay₃, hrest₃⟩
      exact ⟨hrc, rfl, hoff₃, (hplay.trans hplay₂).trans hplay₃, hrest₃⟩

/-- The file gets the size of the image, which is what the journal's header says. -/
theorem Rolling.pagerTruncate (hmove : move B B) (h : Rolling C B D P J sealed todo)
    (hwhole : PagerState.EXCLUSIVE.num ≤ P.state.num ∨ D.db.cur.size = B.n * C.pageSize) :
    PagerSafe C move (pagerTruncate C P B.n) (fun P' D' B' => B' = B ∧
      D'.db.cur.size = B.n * C.pageSize ∧ P'.journalOff = P.journalOff ∧
      P'.cksumInit = P.cksumInit ∧ SamePlay P P' ∧ Rolling C B D' P' J sealed todo) D B := by
  have hrec := h.prot.recoverable
  unfold Rollback.pagerTruncate
  split
  · -- without the exclusive lock, the file was not changed
    next hlt =>
    exact ⟨rfl, hwhole.resolve_left (Nat.not_le.mpr hlt), rfl, rfl, ⟨rfl, rfl, rfl⟩, h⟩
  next hexcl =>
  refine .bind (safe_fileSize hmove hrec ?_)
  extract_lets newSize
  have hsize : newSize = B.n * C.pageSize := Nat.mul_comm ..
  split
  · next heq => exact ⟨rfl, heq.trans hsize, rfl, rfl, ⟨rfl, rfl, rfl⟩, h⟩
  next hne =>
  -- with the new content, what is in the file stays there
  have hroll : ∀ c, DbHolds C B (pagesOf sealed) c → c.size = B.n * C.pageSize →
      (∀ p, B.Used C p → HasPage C D.db.cur p (B.page p) → HasPage C c p (B.page p)) →
      Rolling C B (D.update .db c) { P with dbFileSize := B.n } J sealed todo := by
    intro c hc hcsize hkeep
    refine ⟨h.prot.update_db hc fun _ => hcsize, h.unique, h.valid, h.recorded, fun p hp => ?_,
      h.cached⟩
    exact (h.file p hp).imp_left (hkeep p hp)
  split
  · -- pages behind the end of the image are none of its own
    refine .bind (safe_truncate hmove hrec ?_)
    refine ⟨rfl, hsize, rfl, rfl, ⟨rfl, rfl, rfl⟩, hroll _ ?_ hsize fun p hp hhas => ?_⟩
    · exact h.prot.holds.truncate id fun q hq _ => hq.2.1
    · exact hhas.truncate hp.1 hp.2.1
  · next hge =>
    have hshort : D.db.cur.size < C.pageSize * B.n :=
      Nat.lt_of_le_of_ne (Nat.not_lt.mp hge) hne
    have hsize' := (size_extend hshort).trans hsize
    refine .bind (safe_write hmove hrec ?_)
    refine ⟨rfl, hsize', rfl, rfl, ⟨rfl, rfl, rfl⟩, hroll _ ?_ hsize' fun p hp hhas => ?_⟩
    · exact h.prot.holds.extend hshort
    · exact hhas.extend hp.1 hshort

end

/-! ### The segments -/

/-- The segments that `playbackLoop` goes through from offset `o` on, each with `isUnsync`, where
    `journalHdr` is the header that the pager wrote last. -/
def Plays (C : PagerConfig) (c : Content UInt8) (n : Nat) (isHot : Bool) (journalHdr : Nat) :
    Nat → List (Segment × Bool) → Prop
  | o, [] => c.size < journalHdrOffset C o + C.sectorSize ∨
      c.read (journalHdrOffset C o) 8 ≠ aJournalMagic
  | o, (seg, isUnsync) :: segs => ∃ nRec : BitVec 32,
      c.read (journalHdrOffset C o) C.sectorSize = Rollback.journalHdr C nRec seg.cksumInit n ∧
      journalHdrOffset C o + C.sectorSize ≤ c.size ∧ nRec.toNat ≠ 0xffffffff ∧
      isUnsync = decide (nRec.toNat = 0 ∧ isHot = false ∧ journalHdr = journalHdrOffset C o) ∧
      seg.recs.length = (if isUnsync then
        (c.size - (journalHdrOffset C o + C.sectorSize)) / C.journalPgSz else nRec.toNat) ∧
      ∃ m, Records C c seg.cksumInit (journalHdrOffset C o + C.sectorSize) seg.recs m ∧
        m ≤ c.size ∧ Plays C c n isHot journalHdr m segs

/-- The records of the segments, each with `isUnsync`, in the order in which they are played
    back. -/
def recordsOf (segs : List (Segment × Bool)) : List (PageRec × Bool) :=
  segs.flatMap fun x => x.1.recs.map (·, x.2)

section

variable {c : Content UInt8} {n o journalHdr : Nat} {isHot : Bool} {segs : List (Segment × Bool)}

/-- Each segment takes at least a header, so there are not more of them than sectors. -/
theorem Plays.length_le (h : Plays C c n isHot journalHdr o segs) (ho : o ≤ c.size) :
    o + segs.length * C.sectorSize ≤ c.size := by
  induction segs generalizing o with
  | nil => simpa using ho
  | cons x segs ih =>
    obtain ⟨seg, isUnsync⟩ := x
    obtain ⟨nRec, -, -, -, -, -, m, hrecs, hm, hrest⟩ := h
    have hend := hrecs.end_eq
    have hle := le_journalHdrOffset C o
    have hrest := ih hrest hm
    rw [List.length_cons, Nat.add_mul, Nat.one_mul]
    omega

/-- Segments whose headers count their records, in front of the header that the pager wrote last. -/
theorem Segments.plays {segs : List Segment} {e : Nat} {rest : List (Segment × Bool)}
    (h : Segments C c n o segs e) (hle : e ≤ c.size)
    (hlen : ∀ seg ∈ segs, seg.recs.length ≤ 2147483647) (hflag : isHot = true ∨ e ≤ journalHdr)
    (hrest : Plays C c n isHot journalHdr e rest) :
    Plays C c n isHot journalHdr o (segs.map (·, false) ++ rest) := by
  induction segs generalizing o with
  | nil =>
    obtain rfl : o = e := h
    exact hrest
  | cons seg segs ih =>
    obtain ⟨hhdr, m, hrecs, hsegs⟩ := h
    have hcount := hlen seg (List.mem_cons_self ..)
    have htoNat : (BitVec.ofNat 32 seg.recs.length).toNat = seg.recs.length := by
      rw [BitVec.toNat_ofNat]
      omega
    have hend := hrecs.end_eq
    have hme := hsegs.le
    have hpos := C.sectorSize_pos
    refine ⟨.ofNat 32 seg.recs.length, hhdr, by omega, by omega, ?_, ?_, m, hrecs, by omega, ?_⟩
    · -- the header is in front of the one that the pager wrote last
      refine (decide_eq_false ?_).symm
      rintro ⟨-, hcold, heq⟩
      rcases hflag with hhot | hbehind
      · simp [hhot] at hcold
      · omega
    · rw [htoNat]
      rfl
    · exact ih hsegs fun seg' hmem => hlen seg' (List.mem_cons_of_mem _ hmem)

end

section

variable {P : Pager} {J : Storage UInt8} {sealed : List Segment} {segs : List (Segment × Bool)}

/-- **The journal.**  All its segments are played back; the first header gives the database its
    size. -/
theorem Rolling.playbackLoop (hmove : move B B) (hB : B.Valid C) {isHot : Bool} {fuel : Nat}
    (h : Rolling C B D P J sealed (recordsOf segs))
    (hplays : Plays C J.cur B.n isHot P.journalHdr P.journalOff segs)
    (hfuel : segs.length < fuel)
    (hfirst : P.journalOff = 0 ∧ (PagerState.EXCLUSIVE.num ≤ P.state.num ∨
      D.db.cur.size = B.n * C.pageSize) ∨ 0 < P.journalOff ∧ Sized C B D P)
    (needPagerReset : Bool) :
    PagerSafe C move (playbackLoop C J.cur.size isHot fuel P needPagerReset) (fun x D' B' =>
      x.1 = .OK ∧ B' = B ∧ SamePlay P x.2 ∧ Rolling C B D' x.2 J sealed [] ∧
      (segs = [] ∧ P.journalOff = 0 ∧ D' = D ∨ Sized C B D' x.2)) D B := by
  induction segs generalizing P D fuel needPagerReset with
  | nil =>
    obtain ⟨fuel, rfl⟩ := Nat.exists_eq_succ_of_ne_zero (Nat.ne_of_gt hfuel)
    unfold Rollback.playbackLoop
    refine .bind (safe_readJournalHdr_done hmove h.prot.recoverable h.prot.file_journal hplays ?_)
    dsimp -zeta only
    rw [if_pos rfl]
    refine ⟨rfl, rfl, ⟨rfl, rfl, rfl⟩, h.congr rfl rfl, ?_⟩
    rcases hfirst with ⟨hzero, -⟩ | ⟨-, hsized⟩
    · exact .inl ⟨rfl, hzero, rfl⟩
    · exact .inr hsized
  | cons x segs ih =>
    obtain ⟨seg, isUnsync⟩ := x
    obtain ⟨fuel, rfl⟩ := Nat.exists_eq_succ_of_ne_zero (Nat.ne_of_gt (Nat.zero_lt_of_lt hfuel))
    obtain ⟨nRec, hhdr, hlong, hmax, hisUnsync, hlen, m, hrecs, hm, hrest⟩ := hplays
    unfold Rollback.playbackLoop
    refine .bind (safe_readJournalHdr_ok hmove h.prot.recoverable h.prot.file_journal hhdr hlong
      hB.n_le ?_)
    dsimp -zeta only
    rw [if_neg (by decide), if_neg (fun hne => hne rfl), if_neg hmax]
    extract_lets nRec₁ isUnsync₁ nRec₂ playback
    have hunsync : isUnsync₁ = isUnsync := by
      rw [hisUnsync]
      simp [isUnsync₁, nRec₁]
    have hcount : nRec₂ = seg.recs.length := by
      rw [hlen, ← hunsync]
    -- the file has its size, then the records follow
    have hplayback : ∀ P₂ D₂, P₂.journalOff = journalHdrOffset C P.journalOff + C.sectorSize →
        P₂.cksumInit = seg.cksumInit → SamePlay P P₂ → Sized C B D₂ P₂ →
        Rolling C B D₂ P₂ J sealed (recordsOf ((seg, isUnsync) :: segs)) →
        PagerSafe C move (playback P₂) (fun x D' B' => x.1 = .OK ∧ B' = B ∧ SamePlay P x.2 ∧
          Rolling C B D' x.2 J sealed [] ∧ Sized C B D' x.2) D₂ B := by
      intro P₂ D₂ hoff hcksum hplay hsized hroll
      rw [← hoff, ← hcksum] at hrecs
      refine .bind ?_
      rw [hunsync, hcount]
      refine (Rolling.playbackRecords hmove hB hroll hsized hrecs hm needPagerReset).imp ?_
      rintro ⟨rc, P₃, reset⟩ D₃ B ⟨rfl, rfl, hoff₃, hplay₃, hsized₃, hroll₃⟩
      dsimp only at hoff₃ hplay₃ hsized₃ hroll₃
      have hend := hrecs.end_eq
      have hpos := C.sectorSize_pos
      have hplays₃ : Plays C J.cur B.n isHot P₃.journalHdr P₃.journalOff segs := by
        rw [hplay₃.journalHdr, hplay.journalHdr, hoff₃]
        exact hrest
      refine (ih hroll₃ hplays₃ (Nat.lt_of_succ_lt_succ hfuel) (.inr ⟨by omega, hsized₃⟩)
        reset).imp ?_
      rintro x D' B ⟨hrc, rfl, hplay', hroll', hsized'⟩
      refine ⟨hrc, rfl, (hplay.trans hplay₃).trans hplay', hroll', ?_⟩
      rcases hsized' with ⟨-, hzero, -⟩ | hsized'
      · omega
      · exact hsized'
    have hle := le_journalHdrOffset C P.journalOff
    have hroll : Rolling C B D { P with
        journalOff := journalHdrOffset C P.journalOff + C.sectorSize
        cksumInit := seg.cksumInit } J sealed (recordsOf ((seg, isUnsync) :: segs)) :=
      h.congr rfl rfl
    split
    · -- the first header: the file gets the size of the image
      next hzero =>
      have hstart : P.journalOff = 0 := by omega
      obtain ⟨-, hwhole⟩ := hfirst.resolve_right (by omega)
      refine .bind ((hroll.pagerTruncate hmove hwhole).imp ?_)
      rintro P₂ D₂ B ⟨rfl, hsize, hoff, hcksum, hplay, hroll⟩
      refine .bind ?_
      refine (hplayback { P₂ with dbSize := B.n } D₂ hoff hcksum
        ⟨hplay.state, hplay.jfdOpen, hplay.journalHdr⟩ ⟨hsize, rfl⟩ (hroll.congr rfl rfl)).imp ?_
      rintro x D' B ⟨hrc, rfl, hplay', hroll', hsized'⟩
      exact ⟨hrc, rfl, hplay', hroll', .inr hsized'⟩
    · -- a later one
      next hne =>
      obtain ⟨-, hsized⟩ := hfirst.resolve_left fun ⟨hzero, _⟩ => hne (by
        rw [hzero]
        exact Nat.zero_add _)
      refine .bind ?_
      refine (hplayback { P with
        journalOff := journalHdrOffset C P.journalOff + C.sectorSize
        cksumInit := seg.cksumInit } D rfl rfl ⟨rfl, rfl, rfl⟩ hsized hroll).imp ?_
      rintro x D' B ⟨hrc, rfl, hplay', hroll', hsized'⟩
      exact ⟨hrc, rfl, hplay', hroll', .inr hsized'⟩

/-- **A rollback** up to `end_playback` plays all of the segments back. -/
theorem Rolling.playbackJournal (hmove : move B B) (hB : B.Valid C) {isHot : Bool}
    (h : Rolling C B D P J sealed (recordsOf segs)) (hno : NoMaster J.cur)
    (hplays : Plays C J.cur B.n isHot P.journalHdr 0 segs)
    (hwhole : PagerState.EXCLUSIVE.num ≤ P.state.num ∨ D.db.cur.size = B.n * C.pageSize)
    (hnil : segs = [] → D.db.cur.size = B.n * C.pageSize) :
    PagerSafe C move (playbackJournal C P isHot) (fun x D' B' => x.1 = .OK ∧ B' = B ∧
      SamePlay P x.2 ∧ Rolling C B D' x.2 J sealed [] ∧ D'.db.cur.size = B.n * C.pageSize) D B := by
  have hrec := h.prot.recoverable
  unfold Rollback.playbackJournal
  refine .bind (safe_fileSize hmove hrec ?_)
  rw [h.prot.file_journal]
  split
  · next hzero =>
    cases segs with
    | nil => exact ⟨rfl, rfl, ⟨rfl, rfl, rfl⟩, h, hnil rfl⟩
    | cons x segs =>
      -- a segment is longer than the empty journal
      obtain ⟨-, -, hlong, -⟩ := hplays
      have hpos := C.sectorSize_pos
      omega
  refine .bind (safe_readMasterJournal hmove hrec h.prot.file_journal hno ?_)
  refine .bind ?_
  show PagerSafe C move (Rollback.playbackLoop C J.cur.size isHot (J.cur.size / C.sectorSize + 1)
    { P with journalOff := 0 } isHot) _ D B
  -- the loop ends, because every segment takes a sector at least
  have hfuel : segs.length < J.cur.size / C.sectorSize + 1 := by
    have hlen := hplays.length_le (Nat.zero_le _)
    rw [Nat.zero_add] at hlen
    exact Nat.lt_succ_of_le ((Nat.le_div_iff_mul_le C.sectorSize_pos).mpr hlen)
  have hroll : Rolling C B D { P with journalOff := 0 } J sealed (recordsOf segs) := h.congr rfl rfl
  refine (hroll.playbackLoop hmove hB hplays hfuel (.inl ⟨rfl, hwhole⟩) isHot).imp ?_
  rintro x D' B ⟨hrc, rfl, hplay, hroll', hsized⟩
  refine ⟨hrc, rfl, ⟨hplay.state, hplay.jfdOpen, hplay.journalHdr⟩, hroll', ?_⟩
  rcases hsized with ⟨hsegs, -, rfl⟩ | hsized
  · exact hnil hsegs
  · exact hsized.1

end

end Ecos.Sqlite.Rollback
