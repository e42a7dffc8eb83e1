import Ecos.Sqlite.PagerRead

namespace Ecos.Sqlite.Rollback

open Ecos.Lib Program

/-!
# Writing the journal

* `JournalBase` — the journal up to the header that was written last is as it has to be, whatever a
  power failure leaves of it; `JournalBase.update` — writing behind this header keeps it so;
* `JournalOpen` — records are written behind a header that does not count them yet;
  `JournalOpen.journalPage` — another one is;
* `JournalEnd`, `JournalClosed` — all headers count their records, and the file is synced;
  `JournalOpen.syncJournal` — `syncJournal` makes it so;
* `JournalEnd.writeJournalHdr` — another header is written;
* `JournalOpen.plays`, `JournalClosed.plays` — what the process itself plays back.
-/

variable {C : PagerConfig} {move : Image → Image → Prop} {B : Image} {D : Disk} {P : Pager}
  {J : Storage UInt8} {sealed : List Segment} {seg : Segment} {c : Content UInt8}
  {h journalHdr journalOff : Nat}

/-- The journal below the header at `h`, which is the last one and counts no records. -/
structure JournalBase (C : PagerConfig) (B : Image) (J : Storage UInt8) (sealed : List Segment)
    (h e : Nat) : Prop where
  hdr : h = journalHdrOffset C e
  ok : ∀ seg ∈ sealed, B.SegmentOk C seg
  segs : Segments C J.cur B.n 0 sealed e
  agree : ∀ v ∈ J.versions, e ≤ v.size ∧ ∀ i, i < h → v.byte i = J.cur.byte i
  tail : ∀ v ∈ J.versions, OpenTail (C := C) v B.n h

namespace JournalBase

variable {e : Nat}

/-- The journal can be played back in every version that a crash may leave. -/
theorem safe (hJ : JournalBase C B J sealed h e) : JournalSafe C B J sealed :=
  journalSafe_open hJ.ok hJ.segs (hJ.hdr ▸ hJ.agree) (hJ.hdr ▸ hJ.tail)

/-- The journal is changed behind its last header, which still counts no records. -/
theorem update (hJ : JournalBase C B J sealed h e) (hsize : e ≤ c.size)
    (hbyte : ∀ i, i < h → c.byte i = J.cur.byte i) (htail : OpenTail (C := C) c B.n h) :
    JournalBase C B (J.update c) sealed h e where
  hdr := hJ.hdr
  ok := hJ.ok
  segs := hJ.segs.congr fun i _ hi => hbyte i (by
    have hle := le_journalHdrOffset C e
    have hhdr := hJ.hdr
    omega)
  agree v hv := by
    rcases Storage.mem_versions_update.mp hv with rfl | hv
    · exact ⟨hsize, fun _ _ => rfl⟩
    · exact ⟨(hJ.agree v hv).1, fun i hi => ((hJ.agree v hv).2 i hi).trans (hbyte i hi).symm⟩
  tail v hv := by
    rcases Storage.mem_versions_update.mp hv with rfl | hv
    · exact htail
    · exact hJ.tail v hv

/-- What can be played back before a sync can be after it. -/
theorem sync (hJ : JournalBase C B J sealed h e) : JournalBase C B J.sync sealed h e where
  hdr := hJ.hdr
  ok := hJ.ok
  segs := hJ.segs
  agree v hv := by
    rw [Storage.mem_versions_synced.mp hv]
    exact hJ.agree _ J.cur_mem_versions
  tail v hv := by
    rw [Storage.mem_versions_synced.mp hv]
    exact hJ.tail _ J.cur_mem_versions

end JournalBase

/-- A sector that does not begin like a header. -/
theorem ne_magic_of_byte {o : Nat} (h : c.byte o ≠ 0xd9) : c.read o 8 ≠ aJournalMagic := by
  intro heq
  have hlt : 0 < (c.read o 8).length := by simp
  have hget := List.getElem_of_eq heq hlt
  simp only [Content.read, getElem_slice] at hget
  exact h hget

/-- All headers count their records, up to the end of the file, which is synced. -/
structure JournalEnd (C : PagerConfig) (B : Image) (J : Storage UInt8) (sealed : List Segment)
    (journalOff : Nat) : Prop where
  past : J.past = []
  ok : ∀ seg ∈ sealed, B.SegmentOk C seg
  segs : Segments C J.cur B.n 0 sealed journalOff
  size : J.cur.size = journalOff

/-- A journal that was synced to its end has one version. -/
theorem JournalEnd.mem_versions (hJ : JournalEnd C B J sealed journalOff) {v : Content UInt8} :
    v ∈ J.versions ↔ v = J.cur := by
  rw [Storage.versions, hJ.past]
  exact List.mem_singleton

/-- A journal that was synced to its end can be played back. -/
theorem JournalEnd.safe (hJ : JournalEnd C B J sealed journalOff) : JournalSafe C B J sealed := by
  have hle := le_journalHdrOffset C journalOff
  have hpos := C.sectorSize_pos
  have hsize := hJ.size
  have hsynced : J = .synced J.cur := by
    obtain ⟨cur, past⟩ := J
    obtain rfl : past = [] := hJ.past
    rfl
  rw [hsynced]
  exact journalSafe_synced List.prefix_rfl hJ.ok
    ⟨journalOff, hJ.segs, Nat.le_of_eq hsize.symm, .inl (by omega)⟩

/-- Records are written behind the last header, which does not count them yet. -/
structure JournalOpen (C : PagerConfig) (B : Image) (J : Storage UInt8) (sealed : List Segment)
    (seg : Segment) (journalHdr journalOff : Nat) : Prop where
  base : ∃ e, JournalBase C B J sealed journalHdr e
  open_ok : B.SegmentOk C seg
  hdr : J.cur.read journalHdr C.sectorSize = Rollback.journalHdr C 0 seg.cksumInit B.n
  recs : Records C J.cur seg.cksumInit (journalHdr + C.sectorSize) seg.recs journalOff
  size : J.cur.size = journalOff

/-- Only the journal differs, or was synced, from `D` on; the database file is as it was. -/
structure Disk.SameDb (D' D : Disk) : Prop where
  db : D'.db = D.db
  exposed : D'.exposed = D.exposed
  deleted : D.deleted = [] → D'.deleted = []

/-! ### Headers -/

/-- The journal may change to any that can be played back to the same image. -/
theorem Protected.update_journal (hD : Protected C B D J sealed)
    (hsafe : JournalSafe C B (J.update c) sealed) :
    Protected C B (D.update .journal c) (J.update c) sealed where
  journal := by
    show D.journal.map (·.update c) = some (J.update c)
    rw [hD.journal]
    rfl
  safe := hsafe
  db := hD.db
  whole := hD.whole

/-- **A header** is written behind the end of the journal, at the next sector. -/
theorem JournalEnd.writeJournalHdr (hmove : move B B) (hD : Protected C B D J sealed)
    (hJ : JournalEnd C B J sealed P.journalOff) (horig : P.dbOrigSize = B.n) :
    PagerSafe C move (writeJournalHdr C P) (fun P' D' B' => B' = B ∧ D'.SameDb D ∧
      ∃ J' cksumInit journalHdr journalOff,
        P' = { P with cksumInit, journalHdr, journalOff } ∧ Protected C B D' J' sealed ∧
        JournalOpen C B J' sealed ⟨cksumInit, []⟩ journalHdr journalOff) D B := by
  have hrec := hD.recoverable
  have hle := le_journalHdrOffset C P.journalOff
  have hpos := C.sectorSize_pos
  have hge := C.sectorSize_ge
  have hsize := hJ.size
  unfold Rollback.writeJournalHdr
  refine .bind (safe_randomness hmove hrec fun cksumInit => ?_)
  refine .bind (safe_write hmove hrec ?_)
  rw [hD.file_journal, horig]
  dsimp -zeta only
  generalize hh : journalHdrOffset C P.journalOff = h at hle ⊢
  have hlen : (Rollback.journalHdr C 0 cksumInit B.n).length = C.sectorSize := length_journalHdr ..
  -- behind the end of the journal there are zeros, and no header
  have hzero : ∀ o, P.journalOff ≤ o → J.cur.read o 8 ≠ aJournalMagic := by
    intro o ho
    refine ne_magic_of_byte ?_
    rw [J.cur.byte_of_le o (by omega)]
    decide
  have hhdr : (J.cur.write h (Rollback.journalHdr C 0 cksumInit B.n)).read h C.sectorSize
      = Rollback.journalHdr C 0 cksumInit B.n := by
    have hread := Content.read_write J.cur h (Rollback.journalHdr C 0 cksumInit B.n)
    rwa [hlen] at hread
  have hnew : (J.cur.write h (Rollback.journalHdr C 0 cksumInit B.n)).size = h + C.sectorSize := by
    rw [Content.size_write, hlen]
    omega
  -- before the header is written the journal ends where it did
  have hbase : JournalBase C B J sealed h P.journalOff := by
    refine ⟨hh.symm, hJ.ok, hJ.segs, fun v hv => ?_, fun v hv => ?_⟩
    · rw [hJ.mem_versions.mp hv]
      exact ⟨Nat.le_of_eq hsize.symm, fun _ _ => rfl⟩
    · rw [hJ.mem_versions.mp hv]
      exact ⟨.inl (hzero h hle), hzero _ (by omega)⟩
  -- and a header that is there only in part still ends it
  have hbase' : JournalBase C B (J.update (J.cur.write h (Rollback.journalHdr C 0 cksumInit B.n)))
      sealed h P.journalOff := by
    refine hbase.update (by omega) (fun i hi => overwrite_of_lt _ _ hi)
      ⟨.inr ⟨cksumInit, hhdr⟩, ne_magic_of_byte ?_⟩
    rw [Content.byte_of_le _ _ (Nat.le_of_eq hnew)]
    decide
  refine ⟨rfl, ⟨rfl, rfl, id⟩, _, cksumInit, h, h + C.sectorSize, rfl,
    hD.update_journal hbase'.safe, ⟨_, hbase'⟩, segmentOk_nil cksumInit, hhdr, rfl, hnew⟩

/-! ### Records -/

/-- A record does not begin like a header, for its page number is too small. -/
theorem head_put32bits {p : Nat} (hp : p ≤ 2147483647) :
    (put32bits (.ofNat 32 p)).getD 0 0 ≠ 0xd9 := by
  intro heq
  have hnat := congrArg UInt8.toNat heq
  change (((BitVec.ofNat 32 p) >>> 24).setWidth 8).toNat = 217 at hnat
  rw [BitVec.toNat_setWidth, BitVec.toNat_ushiftRight, BitVec.toNat_ofNat,
    Nat.shiftRight_eq_div_pow] at hnat
  omega

/-- The first byte of what is written as a record is that of its page number. -/
theorem byte_write_rec {o p : Nat} (hp : p ≤ 2147483647) (l : List UInt8) :
    (c.write o (put32bits (.ofNat 32 p) ++ l)).byte o ≠ 0xd9 := by
  have hlt : o - o < (put32bits (.ofNat 32 p) ++ l).length := by
    simp
  have hbyte : (c.write o (put32bits (.ofNat 32 p) ++ l)).byte o
      = (put32bits (.ofNat 32 p) ++ l)[o - o] := overwrite_of_mem _ (Nat.le_refl o) hlt
  rw [hbyte]
  simp only [Nat.sub_self]
  exact head_put32bits hp

namespace JournalOpen

/-- Behind a header there is room for the records. -/
theorem lt_size (hJ : JournalOpen C B J sealed seg journalHdr journalOff) :
    journalHdr + C.sectorSize ≤ journalOff := by
  rw [hJ.recs.end_eq]
  omega

/-- Behind the header, there is no other, as far as the journal was written. -/
theorem first (hB : B.Valid C) (hJ : JournalOpen C B J sealed seg journalHdr journalOff) :
    J.cur.byte (journalHdr + C.sectorSize) ≠ 0xd9 := by
  have hrecs := hJ.recs
  have hsize := hJ.size
  cases hseg : seg.recs with
  | nil =>
    rw [hseg] at hrecs
    obtain rfl : journalHdr + C.sectorSize = journalOff := hrecs
    rw [J.cur.byte_of_le _ (by omega)]
    decide
  | cons r rs =>
    rw [hseg] at hrecs
    have hused : B.Recorded C r := hJ.open_ok.1 r (by simp [hseg])
    have hn := hB.n_le
    have hle := hused.1.2.1
    have hpos : 0 < (J.cur.read (journalHdr + C.sectorSize) C.journalPgSz).length := by
      rw [Content.length_read]
      exact C.journalPgSz_pos
    have hget := List.getElem_of_eq hrecs.1 hpos
    simp only [Content.read, getElem_slice, Nat.add_zero] at hget
    rw [hget]
    exact head_put32bits (p := r.pgno) (by omega)

/-- A record, or a part of it, is written, and the journal can be played back as before. -/
theorem write_rec (hB : B.Valid C) (hJ : JournalOpen C B J sealed seg journalHdr journalOff)
    {p : Nat} (hp : p ≤ 2147483647) (l : List UInt8) :
    (∀ i, i < journalHdr + C.sectorSize →
      (J.cur.write journalOff (put32bits (.ofNat 32 p) ++ l)).byte i = J.cur.byte i) ∧
    OpenTail (C := C) (J.cur.write journalOff (put32bits (.ofNat 32 p) ++ l)) B.n journalHdr := by
  have hlt := hJ.lt_size
  have hbelow : ∀ i, i < journalOff →
      (J.cur.write journalOff (put32bits (.ofNat 32 p) ++ l)).byte i = J.cur.byte i :=
    fun i hi => overwrite_of_lt _ _ hi
  refine ⟨fun i hi => hbelow i (by omega), .inr ⟨seg.cksumInit, ?_⟩, ne_magic_of_byte ?_⟩
  · rw [← hJ.hdr]
    exact Content.read_congr fun i _ hi => hbelow i (by omega)
  · rcases Nat.lt_or_eq_of_le hlt with hlt | heq
    · rw [hbelow _ hlt]
      exact hJ.first hB
    · rw [heq]
      exact byte_write_rec hp l

/-- **A record** is written behind the others, in three pieces, each of which keeps the journal
    safe. -/
theorem journalPage (hmove : move B B) (hB : B.Valid C) (hD : Protected C B D J sealed)
    {pg : PgHdr} (hJ : JournalOpen C B J sealed seg P.journalHdr P.journalOff)
    (hcksum : P.cksumInit = seg.cksumInit) (hrec : B.Recorded C ⟨pg.pgno, pg.data⟩)
    (hcount : seg.recs.length < 2147483647) :
    PagerSafe C move (journalPage C P pg) (fun P' D' B' => B' = B ∧ D'.SameDb D ∧
      P' = { P.mapPage pg.pgno fun pg => { pg with needSync := true } with
        journalOff := P.journalOff + C.journalPgSz
        needSync := true
        nRec := P.nRec + 1
        pInJournal := P.pInJournal.map (pg.pgno :: ·) } ∧
      ∃ J', Protected C B D' J' sealed ∧
        JournalOpen C B J' sealed { seg with recs := seg.recs ++ [⟨pg.pgno, pg.data⟩] }
          P.journalHdr (P.journalOff + C.journalPgSz)) D B := by
  obtain ⟨hused, hdata⟩ := hrec
  have hpgno := hused.2.1
  dsimp only at hpgno hdata
  have hn := hB.n_le
  have hp : pg.pgno ≤ 2147483647 := by omega
  have hlen : pg.data.length = C.pageSize := by
    rw [hdata]
    exact hB.length_page _
  have hlt := hJ.lt_size
  have hsize := hJ.size
  have hpos := C.sectorSize_pos
  obtain ⟨e, hbase⟩ := hJ.base
  have hle := le_journalHdrOffset C e
  have hhdr := hbase.hdr
  have hbelow : ∀ l i, i < P.journalHdr →
      (J.cur.write P.journalOff (put32bits (.ofNat 32 pg.pgno) ++ l)).byte i = J.cur.byte i :=
    fun l i hi => (hJ.write_rec hB hp l).1 i (by omega)
  have htail := fun l => (hJ.write_rec hB hp l).2
  have hbig : ∀ l, e ≤ (J.cur.write P.journalOff l).size := fun l => by
    rw [Content.size_write]
    omega
  unfold Rollback.journalPage
  -- the page number
  refine .bind (safe_write hmove hD.recoverable ?_)
  rw [hD.file_journal, ← List.append_nil (put32bits (.ofNat 32 pg.pgno))]
  have hbase₁ := hbase.update (hbig _) (hbelow []) (htail [])
  have hD₁ := hD.update_journal hbase₁.safe
  -- the data
  refine .bind (safe_write hmove hD₁.recoverable ?_)
  rw [hD₁.file_journal, Storage.cur_update, List.append_nil,
    show P.journalOff + 4 = P.journalOff + (put32bits (.ofNat 32 pg.pgno)).length from rfl,
    Content.write_append]
  rw [List.append_nil] at hbase₁ hD₁
  have hbase₂ := hbase₁.update (hbig _) (fun i hi => (hbelow pg.data i hi).trans
    (by simpa using (hbelow [] i hi).symm)) (htail pg.data)
  have hD₂ := hD₁.update_journal hbase₂.safe
  -- the checksum
  refine .bind (safe_write hmove hD₂.recoverable ?_)
  have hoff : P.journalOff + (put32bits (.ofNat 32 pg.pgno)).length + C.pageSize
      = P.journalOff + (put32bits (.ofNat 32 pg.pgno) ++ pg.data).length := by
    rw [List.length_append, hlen, Nat.add_assoc]
  rw [hD₂.file_journal, Storage.cur_update, hoff, Content.write_append, hcksum]
  have hbelow₃ := hbelow (pg.data ++ put32bits (pagerCksum C seg.cksumInit pg.data))
  have htail₃ := htail (pg.data ++ put32bits (pagerCksum C seg.cksumInit pg.data))
  rw [← List.append_assoc] at hbelow₃ htail₃
  have hbase₃ := hbase₂.update (hbig _)
    (fun i hi => (hbelow₃ i hi).trans (hbelow pg.data i hi).symm) htail₃
  have hD₃ := hD₂.update_journal hbase₃.safe
  -- what is in the journal now
  have hrec : (put32bits (.ofNat 32 pg.pgno) ++ pg.data
      ++ put32bits (pagerCksum C seg.cksumInit pg.data)).length = C.journalPgSz :=
    length_journalRec C (r := ⟨pg.pgno, pg.data⟩) hlen
  have hsame : ∀ i, i < P.journalOff → (J.cur.write P.journalOff (put32bits (.ofNat 32 pg.pgno)
      ++ pg.data ++ put32bits (pagerCksum C seg.cksumInit pg.data))).byte i = J.cur.byte i :=
    fun i hi => overwrite_of_lt _ _ hi
  refine ⟨rfl, ⟨rfl, rfl, id⟩, rfl, _, hD₃, ⟨e, hbase₃⟩, ⟨?_, ?_⟩, ?_, ?_, ?_⟩
  · intro r hr
    rcases List.mem_append.mp hr with hr | hr
    · exact hJ.open_ok.1 r hr
    · rw [List.mem_singleton.mp hr]
      exact ⟨hused, hdata⟩
  · rw [List.length_append]
    exact hcount
  · rw [← hJ.hdr]
    exact Content.read_congr fun i _ hi => hsame i (by omega)
  · refine (hJ.recs.congr fun i _ hi => hsame i hi).snoc ?_
    rw [← hrec]
    exact Content.read_write ..
  · rw [Storage.cur_update, Content.size_write, hrec]
    omega

end JournalOpen

/-! ### Syncing -/

/-- All headers count their records, and the pager knows where the last one is. -/
structure JournalClosed (C : PagerConfig) (B : Image) (J : Storage UInt8) (sealed : List Segment)
    (journalHdr journalOff : Nat) : Prop where
  toEnd : JournalEnd C B J sealed journalOff
  last : ∃ init seg e, sealed = init ++ [seg] ∧ journalHdr = journalHdrOffset C e ∧
    Segments C J.cur B.n 0 init e ∧ Segments C J.cur B.n e [seg] journalOff

/-- A file that holds all but some pages holds all but more of them. -/
theorem DbHolds.mono {K K' : List Nat} (hc : DbHolds C B K c) (hK : ∀ p, p ∈ K → p ∈ K') :
    DbHolds C B K' c :=
  ⟨fun p hp hpK => hc.1 p hp fun hmem => hpK (hK p hmem), hc.2⟩

/-- The pages of two lists of segments. -/
@[simp] theorem pagesOf_append (segs segs' : List Segment) :
    pagesOf (segs ++ segs') = pagesOf segs ++ pagesOf segs' :=
  List.flatMap_append

/-- A page of the first segments is one of them all. -/
theorem mem_pagesOf_left {segs segs' : List Segment} {p : Nat} (hp : p ∈ pagesOf segs) :
    p ∈ pagesOf (segs ++ segs') := by
  rw [pagesOf_append]
  exact List.mem_append_left _ hp

/-- A sync of the journal seals the segments that are complete, and these protect their pages. -/
theorem Protected.sync_journal {more : List Segment} (hD : Protected C B D J sealed)
    (hsafe : JournalSafe C B J.sync (sealed ++ more)) :
    Protected C B (D.sync .journal) J.sync (sealed ++ more) where
  journal := by
    show D.journal.map Storage.sync = some J.sync
    rw [hD.journal]
    rfl
  safe := hsafe
  db v hv := (hD.db v hv).mono fun p hp => mem_pagesOf_left hp
  whole hnil := hD.whole (List.append_eq_nil_iff.mp hnil).1

/-- **The number of records** is written into the last header, between two syncs. -/
theorem JournalOpen.count (hB : B.Valid C)
    (hJ : JournalOpen C B J sealed seg journalHdr journalOff)
    (hc : J.cur.write (journalHdr + 8) (put32bits (.ofNat 32 seg.recs.length)) = c) :
    JournalSafe C B (J.sync.update c) sealed ∧
      JournalClosed C B (J.sync.update c).sync (sealed ++ [seg]) journalHdr journalOff := by
  have hlt := hJ.lt_size
  have hsize := hJ.size
  have hge := C.sectorSize_ge
  obtain ⟨e, hbase⟩ := hJ.base
  have hhdr := hbase.hdr
  have hle := le_journalHdrOffset C e
  -- nothing but the header changes
  have hbelow : ∀ i, i < journalHdr → c.byte i = J.cur.byte i := by
    intro i hi
    rw [← hc]
    exact overwrite_of_lt _ _ (by omega)
  have hbehind : ∀ i, journalHdr + C.sectorSize ≤ i → c.byte i = J.cur.byte i := by
    intro i hi
    rw [← hc]
    refine overwrite_of_ge _ ?_
    rw [length_put32bits]
    omega
  have hcsize : c.size = journalOff := by
    rw [← hc, Content.size_write, length_put32bits]
    omega
  have hcount : c.read journalHdr C.sectorSize
      = Rollback.journalHdr C (.ofNat 32 seg.recs.length) seg.cksumInit B.n := by
    rw [← hc]
    exact read_write_nRec hJ.hdr _
  have hsegs : Segments C c B.n 0 sealed e := hbase.segs.congr fun i _ hi => hbelow i (by omega)
  have hrecs : Records C c seg.cksumInit (journalHdr + C.sectorSize) seg.recs journalOff :=
    hJ.recs.congr fun i hi _ => hbehind i hi
  have hlast : Segments C c B.n e [seg] journalOff := by
    rw [hhdr] at hcount hrecs
    exact ⟨hcount, _, hrecs, rfl⟩
  refine ⟨?_, ⟨rfl, segmentOk_snoc hbase.ok hJ.open_ok, segments_append.mpr ⟨e, hsegs, hlast⟩,
    hcsize⟩, sealed, seg, e, rfl, hhdr, hsegs, hlast⟩
  -- until the second sync, the header may count the records or not
  have hversions : ∀ v ∈ (J.sync.update c).versions, v = c ∨ v = J.cur := by
    intro v hv
    rcases Storage.mem_versions_update.mp hv with rfl | hv
    · exact .inl rfl
    · exact .inr (Storage.mem_versions_synced.mp hv)
  rw [hhdr] at hbelow hbehind hcount hrecs
  have hzero := hJ.hdr
  have hfirst := hJ.first hB
  rw [hhdr] at hzero hfirst
  refine journalSafe_nRec hbase.ok hsegs (fun v hv => ?_) hJ.open_ok hrecs (fun v hv => ?_)
    (fun v hv i hi => ?_) (ne_magic_of_byte ?_) fun v hv => ?_
  · rcases hversions v hv with rfl | rfl
    · exact ⟨by omega, fun _ _ => rfl⟩
    · exact ⟨by omega, fun i hi => (hbelow i hi).symm⟩
  · rcases hversions v hv with rfl | rfl
    · exact hcsize
    · exact hsize
  · rcases hversions v hv with rfl | rfl
    · rfl
    · exact (hbehind i hi).symm
  · rw [Storage.cur_update, hbehind _ (Nat.le_refl _)]
    exact hfirst
  · rcases hversions v hv with rfl | rfl
    · exact .inl hcount
    · exact .inr hzero

/-- **Syncing the journal** makes its last segment count: the records, then their number, each with
    a sync. -/
theorem JournalOpen.syncJournal (hmove : move B B) (hB : B.Valid C) (hD : Protected C B D J sealed)
    (hJ : JournalOpen C B J sealed seg P.journalHdr P.journalOff) (hneedSync : P.needSync = true)
    (hnRec : P.nRec = seg.recs.length) :
    PagerSafe C move (syncJournal C P) (fun P' D' B' => B' = B ∧ D'.SameDb D ∧
      P' = { P with needSync := false, journalStarted := true }.clearSyncFlags ∧
      ∃ J', Protected C B D' J' (sealed ++ [seg]) ∧
        JournalClosed C B J' (sealed ++ [seg]) P.journalHdr P.journalOff) D B := by
  have hsize := hJ.size
  have hnext := le_journalHdrOffset C P.journalOff
  obtain ⟨e, hbase⟩ := hJ.base
  unfold Rollback.syncJournal
  rw [hneedSync, if_neg (by decide)]
  extract_lets iNextHdrOffset
  refine .bind (safe_read hmove hD.recoverable ?_)
  dsimp -zeta only
  have hshort : ¬iNextHdrOffset + 8 ≤ (D.file .journal).cur.size := by
    rw [hD.file_journal, hsize]
    omega
  -- there is no old header behind the records that would have to be overwritten
  rw [if_neg (fun hfull => hshort (of_decide_eq_true hfull.1))]
  -- the records are synced, then the number of them is written
  have hD₁ : Protected C B (D.sync .journal) J.sync (sealed ++ []) := by
    refine hD.sync_journal ?_
    rw [List.append_nil]
    exact hbase.sync.safe
  rw [List.append_nil] at hD₁
  refine .bind (safe_sync hmove hD.recoverable ?_)
  refine .bind (safe_write hmove hD₁.recoverable ?_)
  rw [hD₁.file_journal, hnRec, show J.sync.cur = J.cur from rfl]
  generalize hc : J.cur.write (P.journalHdr + 8) (put32bits (.ofNat 32 seg.recs.length)) = c
  obtain ⟨hsafe, hclosed⟩ := hJ.count hB hc
  have hD₂ := hD₁.update_journal hsafe
  refine .bind (safe_sync hmove hD₂.recoverable ?_)
  exact ⟨rfl, ⟨rfl, rfl, fun _ => rfl⟩, rfl, _, hD₂.sync_journal hclosed.toEnd.safe, hclosed⟩

/-! ### What the process itself plays back -/

/-- How an open journal is played back: the last segment is under way. -/
theorem JournalOpen.plays (hJ : JournalOpen C B J sealed seg journalHdr journalOff) :
    Plays C J.cur B.n false journalHdr 0 (sealed.map (·, false) ++ [(seg, true)]) := by
  obtain ⟨e, hbase⟩ := hJ.base
  have hhdr := hbase.hdr
  have hle := le_journalHdrOffset C e
  have hlt := hJ.lt_size
  have hsize := hJ.size
  have hpos := C.sectorSize_pos
  have hend := hJ.recs.end_eq
  refine hbase.segs.plays (hbase.agree _ J.cur_mem_versions).1
    (fun seg hseg => (hbase.ok seg hseg).2) (.inr (by omega))
    ⟨0, ?_, by omega, by decide, ?_, ?_, journalOff, ?_, by omega, .inl ?_⟩
  · rw [← hhdr]
    exact hJ.hdr
  · simp [hhdr]
  · rw [if_pos rfl, ← hhdr, hsize, hend, Nat.add_sub_cancel_left,
      Nat.mul_div_cancel _ C.journalPgSz_pos]
  · rw [← hhdr]
    exact hJ.recs
  · have hnext := le_journalHdrOffset C journalOff
    omega

/-- How a closed journal is played back: by its counts, and the last segment to its end. -/
theorem JournalClosed.plays (hJ : JournalClosed C B J sealed journalHdr journalOff) :
    ∃ init seg, sealed = init ++ [seg] ∧ Plays C J.cur B.n false journalHdr 0
      (init.map (·, false) ++ [(seg, decide (seg.recs = []))]) := by
  obtain ⟨⟨-, hok, -, hsize⟩, init, seg, e, rfl, rfl, hsegs, hlast⟩ := hJ
  obtain ⟨hcount, m, hrecs, hm⟩ := hlast
  obtain rfl : m = journalOff := hm
  have hle := le_journalHdrOffset C e
  have hend := hrecs.end_eq
  have hpos := C.sectorSize_pos
  have hlen := (hok seg (by simp)).2
  have htoNat : (BitVec.ofNat 32 seg.recs.length).toNat = seg.recs.length := by
    rw [BitVec.toNat_ofNat]
    omega
  refine ⟨init, seg, rfl, hsegs.plays (by omega) (fun seg' hseg => (hok seg' (by simp [hseg])).2)
    (.inr hle) ⟨.ofNat 32 seg.recs.length, hcount, by omega, by omega, ?_, ?_, m, hrecs, by omega,
      .inl ?_⟩⟩
  · simp [htoNat]
  · rw [htoNat]
    split
    · next hnil =>
      rw [decide_eq_true_eq] at hnil
      rw [hnil] at hend
      simp [hnil, hsize, hend]
    · rfl
  · have hnext := le_journalHdrOffset C m
    omega

end Ecos.Sqlite.Rollback
