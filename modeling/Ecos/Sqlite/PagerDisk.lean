import Ecos.Sqlite.Pager

namespace Ecos.Sqlite.Rollback

open Ecos.Lib

/-!
# What is on the disk

When the database file and the journal, whatever a power failure leaves of them, still are as good
as the database at the last commit.

* `Image` — the pages of a database; `HasPage`, `DbHolds` — a file that has them, but for some;
* `JournalSafe` — every outcome of a power failure is a journal whose records are pages of the
  image, and which has the segments that the database file relies on;
* `Recoverable` — so a rollback brings the image back; `Crash`, `Recoverable.crash` — also after a
  power failure; `PowerFailure` — which may undo the deletion of a journal;
* `journalSafe_open`, `journalSafe_nRec` — the journal stays safe while its last segment is filled
  behind a header that counts no records, and while the count is written.
-/

variable (C : PagerConfig)

/-! ### The database -/

/-- The content of a database: its number of pages, and the pages from 1 on. -/
structure Image where
  n : Nat
  page : Nat → List UInt8

/-- Images that fit into a file: whole pages, a page at least, and numbers that a pager can
    count. -/
structure Image.Valid (B : Image) : Prop where
  length_page : ∀ p, (B.page p).length = C.pageSize
  n_le : B.n ≤ 2147483647
  n_ne : B.n ≠ C.mjPgno

/-- The content of page `p`, as it is read from the file. -/
def pageAt (c : Content UInt8) (p : Nat) : List UInt8 := c.read ((p - 1) * C.pageSize) C.pageSize

/-- The file is long enough for page `p`, which is `d`. -/
def HasPage (c : Content UInt8) (p : Nat) (d : List UInt8) : Prop :=
  p * C.pageSize ≤ c.size ∧ pageAt C c p = d

/-- A page of the image, other than the one with the lock bytes, which is never used. -/
def Image.Used (B : Image) (p : Nat) : Prop := 1 ≤ p ∧ p ≤ B.n ∧ p ≠ C.mjPgno

/-- The file has the pages of the image, those in `K` left out. -/
def DbHolds (B : Image) (K : List Nat) (c : Content UInt8) : Prop :=
  (∀ p, B.Used C p → p ∉ K → HasPage C c p (B.page p)) ∧ (0 < B.n → 0 < c.size)

/-- The contents of the database file that have to be in order: what it was before the last sync
    may be out of order while it is `exposed`. -/
def Disk.dbVersions (D : Disk) : List (Content UInt8) :=
  if D.exposed then [D.db.cur] else D.db.versions

/-! ### The journal -/

/-- A record of a page of the image, with the content that it has there. -/
def Image.Recorded (B : Image) (r : PageRec) : Prop := B.Used C r.pgno ∧ r.data = B.page r.pgno

/-- All records of the segment are pages of the image, and they are not too many to be counted. -/
def Image.SegmentOk (B : Image) (seg : Segment) : Prop :=
  (∀ r ∈ seg.recs, B.Recorded C r) ∧ seg.recs.length ≤ 2147483647

/-- The pages in the journal, which a rollback brings back. -/
def pagesOf (segs : List Segment) : List Nat := segs.flatMap fun seg => seg.recs.map (·.pgno)

/-- A damaged sector of the journal is not taken for a header. -/
def NoHeader (c : Content UInt8) (b : Nat) : Prop := c.read (b * C.sectorSize) 8 ≠ aJournalMagic

/-- Whatever a power failure leaves of the journal, a rollback from it only brings back pages of the
    image, and among them those in the segments `sealed`. -/
def JournalSafe (B : Image) (J : Storage UInt8) (sealed : List Segment) : Prop :=
  ∀ c, J.CrashImage C.sectorSize (NoHeader C) c → ∃ segs, sealed <+: segs ∧
    (∀ seg ∈ segs, B.SegmentOk C seg) ∧ Parsed C c B.n segs

/-- The database is the image, or a rollback makes it so, whatever of the unsynced writes has
    reached the disk. -/
def Recoverable (B : Image) (D : Disk) : Prop :=
  match D.journal with
  | none => ∀ v ∈ D.dbVersions, DbHolds C B [] v ∧ v.size = B.n * C.pageSize
  | some J => ∃ sealed, JournalSafe C B J sealed ∧
      (∀ v ∈ D.dbVersions, DbHolds C B (pagesOf sealed) v) ∧
      (sealed = [] → ∀ v ∈ D.dbVersions, v.size = B.n * C.pageSize)

/-- The disk after a power failure, when no deletion is undone.  A journal that was never synced may
    be gone. -/
def Crash (D D' : Disk) : Prop :=
  D'.exposed = false ∧ D'.deleted = [] ∧
  (∃ c, D.db.CrashImage C.sectorSize (fun _ _ => True) c ∧ D'.db = .synced c) ∧
  match D.journal with
  | none => D'.journal = none
  | some J => (∃ c, J.CrashImage C.sectorSize (NoHeader C) c ∧ D'.journal = some (.synced c)) ∨
      (∃ v ∈ J.versions, v.size = 0) ∧ D'.journal = none

/-- The disk after a power failure: there is the journal, or one of those that were deleted since
    the last sync.  Its directory entry is found as it was before, and its sectors have not been
    used for another file. -/
def PowerFailure (D D' : Disk) : Prop :=
  Crash C D D' ∨ ∃ J ∈ D.deleted, Crash C { D with journal := some J } D'

variable {C} {B : Image} {D D' : Disk} {J : Storage UInt8} {c v : Content UInt8} {p : Nat}
  {sealed : List Segment}

/-! ### Power failures -/

/-- What a disk is worth depends on the journal and on the contents that the file may have. -/
theorem Recoverable.congr (h : Recoverable C B D) (hjournal : D'.journal = D.journal)
    (hdb : D'.db = D.db) (hexp : D'.exposed = D.exposed) : Recoverable C B D' := by
  unfold Recoverable Disk.dbVersions at h ⊢
  rwa [hjournal, hdb, hexp]

/-- A page that all contents have survives, since a page is whole sectors. -/
theorem HasPage.crash {f : Storage UInt8} {d : List UInt8} {Damage : Content UInt8 → Nat → Prop}
    (h : f.CrashImage C.sectorSize Damage c) (hp : 1 ≤ p)
    (hd : ∀ v ∈ f.versions, HasPage C v p d) : HasPage C c p d := by
  have hsize := h.le_size fun v hv => (hd v hv).1
  have hpage : (p - 1) * C.pageSize + C.pageSize = p * C.pageSize := by
    rw [← Nat.succ_mul, Nat.succ_eq_add_one, Nat.sub_add_cancel hp]
  refine ⟨hsize, ?_⟩
  rw [← (hd _ f.cur_mem_versions).2]
  refine Content.read_congr fun i hle hlt => ?_
  refine h.byte_eq (C.sectorSize_dvd.mul_left _) C.sectorSize_dvd (x := f.cur.byte) ?_ hle hlt
    (by omega)
  intro v hv j hjle hjlt
  exact Content.byte_of_read ((hd v hv).2.trans (hd _ f.cur_mem_versions).2.symm) hjle hjlt

/-- Pages that all contents have survive. -/
theorem DbHolds.crash {f : Storage UInt8} {K : List Nat} {Damage : Content UInt8 → Nat → Prop}
    (h : f.CrashImage C.sectorSize Damage c) (hd : ∀ v ∈ f.versions, DbHolds C B K v) :
    DbHolds C B K c :=
  ⟨fun p hp hK => HasPage.crash h hp.1 fun v hv => (hd v hv).1 p hp hK,
    fun hn => h.le_size fun v hv => (hd v hv).2 hn⟩

/-- A journal that may be empty does not have to have any segment. -/
theorem JournalSafe.eq_nil (h : JournalSafe C B J sealed) (hv : v ∈ J.versions)
    (hsize : v.size = 0) : sealed = [] := by
  obtain ⟨segs, hpre, -, e, hsegs, hle, -⟩ := h .empty
    { size_ge := ⟨v, hv, Nat.le_of_eq hsize⟩
      size_le := ⟨v, hv, Nat.zero_le _⟩
      block := fun _ => .inl ⟨v, hv, fun i _ hi => absurd hi (Nat.not_lt_zero i)⟩ }
  cases segs with
  | nil => exact List.prefix_nil.mp hpre
  | cons seg segs =>
    -- there is no room for a header in an empty file
    obtain ⟨-, m, hrecs, hrest⟩ := hsegs
    have hm := hrecs.end_eq
    have hme := hrest.le
    have hpos := C.sectorSize_pos
    have hzero : e ≤ 0 := hle
    omega

/-- A journal that is synced holds what it holds, whatever happens. -/
theorem journalSafe_synced {segs : List Segment} (hpre : sealed <+: segs)
    (hok : ∀ seg ∈ segs, B.SegmentOk C seg) (hparsed : Parsed C c B.n segs) :
    JournalSafe C B (.synced c) sealed := by
  intro c' hc'
  rw [hc'.eq_of_synced]
  exact ⟨segs, hpre, hok, hparsed⟩

/-- After a power failure, what is on the disk is there for good. -/
theorem PowerFailure.deleted (hfail : PowerFailure C D D') : D'.deleted = [] := by
  rcases hfail with hcrash | ⟨J, -, hcrash⟩
  · exact hcrash.2.1
  · exact hcrash.2.1

/-- **Power failures.**  What is recoverable stays so, unless the journal was deleted too early. -/
theorem Recoverable.crash (h : Recoverable C B D) (hexp : D.exposed = false)
    (hfail : Crash C D D') : Recoverable C B D' := by
  obtain ⟨hexp', -, ⟨c, hc, hdb⟩, hjournal⟩ := hfail
  have hversions : D.dbVersions = D.db.versions := by
    rw [Disk.dbVersions, if_neg (by rw [hexp]; decide)]
  have hversions' : D'.dbVersions = [c] := by
    rw [Disk.dbVersions, if_neg (by rw [hexp']; decide), hdb]
    rfl
  have hsize : ∀ {n}, (∀ v ∈ D.db.versions, v.size = n) → c.size = n := fun hn =>
    Nat.le_antisymm (hc.size_le_of fun v hv => Nat.le_of_eq (hn v hv))
      (hc.le_size fun v hv => Nat.le_of_eq (hn v hv).symm)
  unfold Recoverable at h ⊢
  rw [hversions'] at *
  cases hJ : D.journal with
  | none =>
    -- no journal: every content is of the image, and so is what is left
    rw [hJ] at h hjournal
    rw [hversions] at h
    rw [show D'.journal = none from hjournal]
    intro v hv
    obtain rfl := List.mem_singleton.mp hv
    exact ⟨.crash hc fun v hv => (h v hv).1, hsize fun v hv => (h v hv).2⟩
  | some J =>
    rw [hJ] at h hjournal
    obtain ⟨sealed, hsafe, hdbs, hexact⟩ := h
    rw [hversions] at hdbs hexact
    have hholds := DbHolds.crash hc hdbs
    rcases hjournal with ⟨j, hj, hJ'⟩ | ⟨⟨v, hv, hempty⟩, hJ'⟩
    · -- the journal is still there
      rw [hJ']
      obtain ⟨segs, hpre, hok, hparsed⟩ := hsafe j hj
      refine ⟨sealed, journalSafe_synced hpre hok hparsed, fun v hv => ?_, fun hnil v hv => ?_⟩
      · obtain rfl := List.mem_singleton.mp hv
        exact hholds
      · obtain rfl := List.mem_singleton.mp hv
        exact hsize (hexact hnil)
    · -- a new journal need not be there any more, but then the file was not touched
      rw [hJ']
      obtain rfl := hsafe.eq_nil hv hempty
      intro v hv
      obtain rfl := List.mem_singleton.mp hv
      exact ⟨hholds, hsize (hexact rfl)⟩

/-! ### The last segment -/

/-- A sector of what is left of the journal is a sector of one of its contents, or no header. -/
theorem crash_sector (h : J.CrashImage C.sectorSize (NoHeader C) c) {o : Nat}
    (ho : C.sectorSize ∣ o) (hsize : o + C.sectorSize ≤ c.size) :
    (∃ v ∈ J.versions, c.read o C.sectorSize = v.read o C.sectorSize) ∨
      c.read o 8 ≠ aJournalMagic := by
  obtain ⟨b, rfl⟩ := ho
  have hpos := C.sectorSize_pos
  rcases h.block b with ⟨v, hv, heq⟩ | ⟨-, hno⟩
  · refine .inl ⟨v, hv, Content.read_congr fun i hle hlt => heq i ?_ (by omega)⟩
    rw [Nat.div_eq_iff hpos, Nat.mul_comm b]
    omega
  · rw [NoHeader, Nat.mul_comm] at hno
    exact .inr hno

/-- A sector that reads the same begins the same. -/
theorem read_eight {o : Nat} (h : c.read o C.sectorSize = v.read o C.sectorSize) :
    c.read o 8 = v.read o 8 := by
  have hge := C.sectorSize_ge
  exact Content.read_congr fun i hle hlt => Content.byte_of_read h hle (by omega)

/-- Behind the segments there is no header, or one that counts no records and is the last. -/
def OpenTail (v : Content UInt8) (n h : Nat) : Prop :=
  (v.read h 8 ≠ aJournalMagic ∨ ∃ cksumInit, v.read h C.sectorSize = journalHdr C 0 cksumInit n) ∧
    v.read (h + C.sectorSize) 8 ≠ aJournalMagic

/-- When behind the segments there is no header, the rollback ends there. -/
theorem parsed_of_stop {n e : Nat} (hsegs : Segments C c n 0 sealed e) (hsize : e ≤ c.size)
    (hstop : journalHdrOffset C e + C.sectorSize ≤ c.size →
      c.read (journalHdrOffset C e) 8 ≠ aJournalMagic) : Parsed C c n sealed :=
  ⟨e, hsegs, hsize, (Nat.lt_or_ge _ _).imp_right hstop⟩

/-- Behind the segments there is a header without records, then the rollback ends behind it. -/
theorem parsed_of_empty {n e : Nat} {cksumInit : BitVec 32} (hsegs : Segments C c n 0 sealed e)
    (hsize : journalHdrOffset C e + C.sectorSize ≤ c.size)
    (hhdr : c.read (journalHdrOffset C e) C.sectorSize = journalHdr C 0 cksumInit n)
    (hstop : journalHdrOffset C e + C.sectorSize + C.sectorSize ≤ c.size →
      c.read (journalHdrOffset C e + C.sectorSize) 8 ≠ aJournalMagic) :
    Parsed C c n (sealed ++ [⟨cksumInit, []⟩]) := by
  have hdvd : C.sectorSize ∣ journalHdrOffset C e + C.sectorSize :=
    Nat.dvd_add (dvd_journalHdrOffset C e) (Nat.dvd_refl _)
  refine parsed_of_stop (e := journalHdrOffset C e + C.sectorSize)
    (segments_append.mpr ⟨e, hsegs, hhdr, _, rfl, rfl⟩) hsize ?_
  rw [journalHdrOffset_of_dvd C hdvd]
  exact hstop

/-- One more segment of the image. -/
theorem segmentOk_snoc (hok : ∀ seg ∈ sealed, B.SegmentOk C seg) {seg : Segment}
    (hseg : B.SegmentOk C seg) : ∀ seg' ∈ sealed ++ [seg], B.SegmentOk C seg' := by
  intro seg' hmem
  rcases List.mem_append.mp hmem with hmem | hmem
  · exact hok seg' hmem
  · rw [List.mem_singleton.mp hmem]
    exact hseg

/-- A segment without records is one of any image. -/
theorem segmentOk_nil (cksumInit : BitVec 32) : B.SegmentOk C ⟨cksumInit, []⟩ :=
  ⟨fun _ hr => absurd hr List.not_mem_nil, Nat.zero_le _⟩

section

variable {e : Nat} (hok : ∀ seg ∈ sealed, B.SegmentOk C seg)
  (hsegs : Segments C J.cur B.n 0 sealed e)
  (hagree : ∀ v ∈ J.versions, e ≤ v.size ∧
    ∀ i, i < journalHdrOffset C e → v.byte i = J.cur.byte i)

include hsegs hagree in
/-- The segments that were synced survive. -/
theorem segments_crash (hc : J.CrashImage C.sectorSize (NoHeader C) c) :
    Segments C c B.n 0 sealed e ∧ e ≤ c.size := by
  have hsize := hc.le_size fun v hv => (hagree v hv).1
  refine ⟨hsegs.congr fun i _ hlt => ?_, hsize⟩
  have hle := le_journalHdrOffset C e
  refine hc.byte_eq (Nat.dvd_zero _) (dvd_journalHdrOffset C e) (x := J.cur.byte) ?_
    (Nat.zero_le i) (by omega) (by omega)
  intro v hv j _ hj
  exact (hagree v hv).2 j (by omega)

include hok hsegs hagree in
/-- **A segment that is being filled.**  Its header counts no records yet, so that a rollback stops
    before them. -/
theorem journalSafe_open
    (htail : ∀ v ∈ J.versions, OpenTail (C := C) v B.n (journalHdrOffset C e)) :
    JournalSafe C B J sealed := by
  intro c hc
  obtain ⟨hcsegs, hcsize⟩ := segments_crash hsegs hagree hc
  have hdvd := dvd_journalHdrOffset C e
  have hstop : c.read (journalHdrOffset C e) 8 ≠ aJournalMagic → ∃ segs, sealed <+: segs ∧
      (∀ seg ∈ segs, B.SegmentOk C seg) ∧ Parsed C c B.n segs := fun hno =>
    ⟨sealed, List.prefix_rfl, hok, parsed_of_stop hcsegs hcsize fun _ => hno⟩
  rcases Nat.lt_or_ge c.size (journalHdrOffset C e + C.sectorSize) with hshort | hlong
  · exact ⟨sealed, List.prefix_rfl, hok, e, hcsegs, hcsize, .inl hshort⟩
  rcases crash_sector hc hdvd hlong with ⟨v, hv, hsector⟩ | hno
  · rcases (htail v hv).1 with hno | ⟨cksumInit, hhdr⟩
    · rw [← read_eight hsector] at hno
      exact hstop hno
    · -- the header is there; the sector behind it is none
      refine ⟨_, List.prefix_append .., segmentOk_snoc hok (segmentOk_nil cksumInit),
        parsed_of_empty hcsegs hlong (hsector.trans hhdr) fun hsize => ?_⟩
      rcases crash_sector hc (Nat.dvd_add hdvd (Nat.dvd_refl _)) hsize with
        ⟨v', hv', hsector'⟩ | hno
      · rw [read_eight hsector']
        exact (htail v' hv').2
      · exact hno
  · exact hstop hno

include hok hsegs hagree in
/-- **A segment whose records are being counted.**  The number is there or not, and both are
    safe. -/
theorem journalSafe_nRec {seg : Segment} (hseg : B.SegmentOk C seg) {m : Nat}
    (hrecs : Records C J.cur seg.cksumInit (journalHdrOffset C e + C.sectorSize) seg.recs m)
    (hsize : ∀ v ∈ J.versions, v.size = m)
    (hrest : ∀ v ∈ J.versions, ∀ i, journalHdrOffset C e + C.sectorSize ≤ i →
      v.byte i = J.cur.byte i)
    (hnext : J.cur.read (journalHdrOffset C e + C.sectorSize) 8 ≠ aJournalMagic)
    (hhdr : ∀ v ∈ J.versions, v.read (journalHdrOffset C e) C.sectorSize
        = journalHdr C (.ofNat 32 seg.recs.length) seg.cksumInit B.n ∨
      v.read (journalHdrOffset C e) C.sectorSize = journalHdr C 0 seg.cksumInit B.n) :
    JournalSafe C B J sealed := by
  intro c hc
  obtain ⟨hcsegs, hcsize⟩ := segments_crash hsegs hagree hc
  have hdvd := dvd_journalHdrOffset C e
  have hm := hrecs.end_eq
  -- no write since the last sync has changed the size or the records
  have hcm : c.size = m := Nat.le_antisymm
    (hc.size_le_of fun v hv => Nat.le_of_eq (hsize v hv))
    (hc.le_size fun v hv => Nat.le_of_eq (hsize v hv).symm)
  have hbyte : ∀ i, journalHdrOffset C e + C.sectorSize ≤ i → i < m → c.byte i = J.cur.byte i := by
    intro i hle hlt
    refine hc.byte_eq (Nat.dvd_add hdvd (Nat.dvd_refl _)) (Nat.dvd_mul_right C.sectorSize m)
      (x := J.cur.byte) (fun v hv j hjle _ => hrest v hv j hjle) hle ?_ (by omega)
    have hmul := Nat.le_mul_of_pos_left m C.sectorSize_pos
    omega
  rcases crash_sector hc hdvd (by omega) with ⟨v, hv, hsector⟩ | hno
  · rcases hhdr v hv with hcount | hzero
    · -- the count is there, and so are the records
      refine ⟨_, List.prefix_append .., segmentOk_snoc hok hseg, m, ?_, Nat.le_of_eq hcm.symm,
        .inl ?_⟩
      · exact segments_append.mpr ⟨e, hcsegs, hsector.trans hcount, m, hrecs.congr hbyte, rfl⟩
      · have hle := le_journalHdrOffset C m
        have hpos := C.sectorSize_pos
        omega
    · -- the count is not there yet
      refine ⟨_, List.prefix_append .., segmentOk_snoc hok (segmentOk_nil seg.cksumInit),
        parsed_of_empty hcsegs (by omega) (hsector.trans hzero) fun hlong => ?_⟩
      have hge := C.sectorSize_ge
      rw [Content.read_congr fun i hle hlt => hbyte i hle (by omega)]
      exact hnext
  · exact ⟨sealed, List.prefix_rfl, hok, parsed_of_stop hcsegs hcsize fun _ => hno⟩

end

end Ecos.Sqlite.Rollback
