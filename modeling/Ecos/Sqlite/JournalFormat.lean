import Ecos.Lib.Storage
import Mathlib.Data.BitVec
import Mathlib.Data.UInt

namespace Ecos.Sqlite.Rollback

open Ecos.Lib

/-!
# The format of the rollback journal

What `pager.c` writes into the journal file, and when a file holds it.

* `PagerConfig` — the sizes of a page and of a sector;
* `put32bits`, `sqlite3Get4byte`, `pagerCksum`, `journalHdrOffset` — numbers, the checksum of a
  page, and where the next header lies;
* `journalHdr`, `journalRec` — the bytes of a header and of a page record, with what is read back;
* `Records`, `Segments` — a file holds page records, or headers each with its records, between two
  offsets; `Segments.congr` and `segments_append` are what the writer needs;
* `Parsed` — the segments that a rollback from the file goes through.
-/

/-- `pageSize` and `sectorSize` of a pager on a file whose sectors are not larger than its pages. -/
structure PagerConfig where
  pageBits : Nat
  sectorBits : Nat
  nine_le : 9 ≤ sectorBits
  sectorBits_le : sectorBits ≤ pageBits
  pageBits_le : pageBits ≤ 15

namespace PagerConfig

variable (C : PagerConfig)

/-- `pPager->pageSize`, a power of two -/
def pageSize : Nat := 2 ^ C.pageBits

/-- `sectorSize`, a power of two, which is `JOURNAL_HDR_SZ` as well -/
def sectorSize : Nat := 2 ^ C.sectorBits

/-- `JOURNAL_PG_SZ`, the length of a record: the page, with its number in front and its checksum
    behind -/
def journalPgSz : Nat := C.pageSize + 8

/-- `PAGER_MJ_PGNO`: the page with the lock bytes, which holds no data. -/
def mjPgno : Nat := 0x40000000 / C.pageSize + 1

/-- A sector has at least 512 bytes, so the fields of a header fit into it. -/
theorem sectorSize_ge : 512 ≤ C.sectorSize := by
  show 2 ^ 9 ≤ 2 ^ C.sectorBits
  exact Nat.pow_le_pow_right (by decide) C.nine_le

/-- A sector is not empty, so sector boundaries can be counted. -/
theorem sectorSize_pos : 0 < C.sectorSize := Nat.lt_of_lt_of_le (by decide) C.sectorSize_ge

/-- A page has a whole number of sectors, so that a damaged sector is in one page. -/
theorem sectorSize_dvd : C.sectorSize ∣ C.pageSize := Nat.pow_dvd_pow _ C.sectorBits_le

/-- A sector is not longer than a page, so a page is written alone. -/
theorem sectorSize_le : C.sectorSize ≤ C.pageSize :=
  Nat.le_of_dvd (Nat.two_pow_pos _) C.sectorSize_dvd

/-- A page has at least 512 bytes, as `readJournalHdr` wants it. -/
theorem pageSize_ge : 512 ≤ C.pageSize := Nat.le_trans C.sectorSize_ge C.sectorSize_le

/-- A page is not empty, so the pages of a file can be counted. -/
theorem pageSize_pos : 0 < C.pageSize := Nat.two_pow_pos _

/-- A page has at most 32768 bytes, which is `SQLITE_MAX_PAGE_SIZE`. -/
theorem pageSize_le : C.pageSize ≤ 32768 := by
  show 2 ^ C.pageBits ≤ 2 ^ 15
  exact Nat.pow_le_pow_right (by decide) C.pageBits_le

/-- A record of the journal is not empty, so the records behind a header can be counted. -/
theorem journalPgSz_pos : 0 < C.journalPgSz := Nat.lt_of_lt_of_le (by decide) (Nat.le_add_left 8 _)

end PagerConfig

/-! ### Numbers -/

/-- `put32bits`: the four bytes of a number, the most significant one first. -/
def put32bits (v : BitVec 32) : List UInt8 :=
  [⟨(v >>> 24).setWidth 8⟩, ⟨(v >>> 16).setWidth 8⟩, ⟨(v >>> 8).setWidth 8⟩, ⟨v.setWidth 8⟩]

/-- `sqlite3Get4byte`: a number from its four bytes, the most significant one first. -/
def sqlite3Get4byte (p : List UInt8) : BitVec 32 :=
  (p.getD 0 0).toBitVec.setWidth 32 <<< 24 ||| (p.getD 1 0).toBitVec.setWidth 32 <<< 16 |||
    (p.getD 2 0).toBitVec.setWidth 32 <<< 8 ||| (p.getD 3 0).toBitVec.setWidth 32

/-- A number takes four bytes, however large it is. -/
@[simp] theorem length_put32bits (v : BitVec 32) : (put32bits v).length = 4 := rfl

/-- A number that was written by `put32bits` is read back by `sqlite3Get4byte`. -/
@[simp] theorem get4byte_put32bits (v : BitVec 32) : sqlite3Get4byte (put32bits v) = v := by
  show ((v >>> 24).setWidth 8).setWidth 32 <<< 24 ||| ((v >>> 16).setWidth 8).setWidth 32 <<< 16 |||
    ((v >>> 8).setWidth 8).setWidth 32 <<< 8 ||| (v.setWidth 8).setWidth 32 = v
  refine BitVec.eq_of_getLsbD_eq fun i hi => ?_
  rcases (by omega : i < 8 ∨ 8 ≤ i ∧ i < 16 ∨ 16 ≤ i ∧ i < 24 ∨ 24 ≤ i) with h | h | h | h
  · simp [h, hi, show i < 16 by omega, show i < 24 by omega]
  · simp [h, hi, show i < 24 by omega, show ¬i < 8 by omega, show i - 8 < 8 by omega,
      show i - 8 < 32 by omega]
  · simp [h, hi, show ¬i < 8 by omega, show ¬i < 16 by omega, show ¬i - 8 < 8 by omega,
      show i - 16 < 8 by omega, show i - 16 < 32 by omega]
  · simp [hi, show ¬i < 8 by omega, show ¬i < 16 by omega, show ¬i < 24 by omega,
      show ¬i - 8 < 8 by omega, show ¬i - 16 < 8 by omega, show i - 24 < 8 by omega,
      show i - 24 < 32 by omega, show 24 + (i - 24) = i by omega]

variable (C : PagerConfig)

/-- `pager_cksum`: every 200th byte of the page, from the end. -/
def pagerCksum (cksumInit : BitVec 32) (aData : List UInt8) : BitVec 32 :=
  -- `i` is `pageSize - 200 * (j + 1)`, as long as this is positive
  (List.range ((C.pageSize - 1) / 200)).foldl
    (fun cksum j => cksum + (aData.getD (C.pageSize - 200 * (j + 1)) 0).toBitVec.setWidth 32)
    cksumInit

/-- `journalHdrOffset`: the sector boundary at or behind `c`, where the next header goes -/
def journalHdrOffset (c : Nat) : Nat :=
  if c ≠ 0 then ((c - 1) / C.sectorSize + 1) * C.sectorSize else 0

/-- The next header does not begin before the end of the journal. -/
theorem le_journalHdrOffset (c : Nat) : c ≤ journalHdrOffset C c := by
  unfold journalHdrOffset
  split
  · have hdiv := Nat.lt_div_mul_add (a := c - 1) C.sectorSize_pos
    rw [Nat.add_mul, Nat.one_mul]
    omega
  · omega

/-- A header begins with a sector, so that damage behind it spares it. -/
theorem dvd_journalHdrOffset (c : Nat) : C.sectorSize ∣ journalHdrOffset C c := by
  unfold journalHdrOffset
  split
  · exact Nat.dvd_mul_left ..
  · exact Nat.dvd_zero _

/-- A sector boundary is its own, and no bytes are skipped there. -/
theorem journalHdrOffset_of_dvd {c : Nat} (h : C.sectorSize ∣ c) : journalHdrOffset C c = c := by
  obtain ⟨m, rfl⟩ := h
  unfold journalHdrOffset
  split
  · next hne =>
    obtain ⟨k, rfl⟩ : ∃ k, m = k + 1 := Nat.exists_eq_succ_of_ne_zero (by rintro rfl; simp at hne)
    have hpos := C.sectorSize_pos
    have hk : (C.sectorSize * (k + 1) - 1) / C.sectorSize = k := by
      rw [Nat.div_eq_iff hpos, Nat.mul_succ, Nat.mul_comm k]
      omega
    rw [hk, Nat.mul_comm]
  · omega

/-! ### Headers and records -/

/-- `aJournalMagic`, the eight bytes by which a header is known -/
def aJournalMagic : List UInt8 := [0xd9, 0xd5, 0x05, 0xf9, 0x20, 0xa1, 0x63, 0xd7]

/-- What `writeJournalHdr` writes: the magic, the counts and sizes, and zeros to the end of the
    sector. -/
def journalHdr (nRec cksumInit : BitVec 32) (dbOrigSize : Nat) : List UInt8 :=
  aJournalMagic ++ put32bits nRec ++ put32bits cksumInit ++ put32bits (.ofNat 32 dbOrigSize) ++
    put32bits (.ofNat 32 C.sectorSize) ++ put32bits (.ofNat 32 C.pageSize) ++
    List.replicate (C.sectorSize - 28) 0

/-- The content of a page, and its number, as a record of the journal has them. -/
structure PageRec where
  pgno : Nat
  data : List UInt8
  deriving DecidableEq

/-- What `pager_write` writes: the number, the content and the checksum. -/
def journalRec (cksumInit : BitVec 32) (r : PageRec) : List UInt8 :=
  put32bits (.ofNat 32 r.pgno) ++ r.data ++ put32bits (pagerCksum C cksumInit r.data)

/-- A header takes a whole sector, whatever is in it. -/
@[simp] theorem length_journalHdr (nRec cksumInit : BitVec 32) (n : Nat) :
    (journalHdr C nRec cksumInit n).length = C.sectorSize := by
  have hge := C.sectorSize_ge
  simp [journalHdr, aJournalMagic]
  omega

/-- The length of a record: a page, its number and its checksum. -/
theorem length_journalRec {cksumInit : BitVec 32} {r : PageRec}
    (h : r.data.length = C.pageSize) : (journalRec C cksumInit r).length = C.journalPgSz := by
  simp [journalRec, h, PagerConfig.journalPgSz]
  omega

section

variable {C} {c : Content UInt8} {h : Nat} {nRec cksumInit : BitVec 32} {n : Nat}

/-- What `readJournalHdr` reads of a header is what was written there. -/
theorem read_journalHdr (hread : c.read h C.sectorSize = journalHdr C nRec cksumInit n) :
    c.read h 8 = aJournalMagic ∧ sqlite3Get4byte (c.read (h + 8) 4) = nRec ∧
    sqlite3Get4byte (c.read (h + 12) 4) = cksumInit ∧
    sqlite3Get4byte (c.read (h + 16) 4) = .ofNat 32 n ∧
    sqlite3Get4byte (c.read (h + 20) 4) = .ofNat 32 C.sectorSize ∧
    sqlite3Get4byte (c.read (h + 24) 4) = .ofNat 32 C.pageSize := by
  have hge := C.sectorSize_ge
  refine ⟨Content.read_part (a := 0) hread (by omega), ?_, ?_, ?_, ?_, ?_⟩
  · rw [Content.read_part hread (by omega)]
    exact get4byte_put32bits nRec
  · rw [Content.read_part hread (by omega)]
    exact get4byte_put32bits cksumInit
  · rw [Content.read_part hread (by omega)]
    exact get4byte_put32bits (.ofNat 32 n)
  · rw [Content.read_part hread (by omega)]
    exact get4byte_put32bits (.ofNat 32 C.sectorSize)
  · rw [Content.read_part hread (by omega)]
    exact get4byte_put32bits (.ofNat 32 C.pageSize)

/-- Writing the number of records into a header changes that number only. -/
theorem read_write_nRec (hread : c.read h C.sectorSize = journalHdr C nRec cksumInit n)
    (v : BitVec 32) : (c.write (h + 8) (put32bits v)).read h C.sectorSize
      = journalHdr C v cksumInit n := by
  have hge := C.sectorSize_ge
  have hpieces : ∀ d : Content UInt8, d.read h 8 ++ (d.read (h + 8) 4
      ++ d.read (h + 8 + 4) (C.sectorSize - 12)) = d.read h C.sectorSize := by
    intro d
    rw [Content.read_append, Content.read_append]
    congr 1
    omega
  rw [← hpieces, Content.read_write_of_disjoint c (.inl (by omega)),
    show (c.write (h + 8) (put32bits v)).read (h + 8) 4 = put32bits v from
      Content.read_write c (h + 8) (put32bits v),
    Content.read_write_of_disjoint c (.inr (by simp))]
  have hfst := Content.read_part (a := 0) (m := 8) hread (by omega)
  have hsnd := Content.read_part (a := 8 + 4) (m := C.sectorSize - 12) hread (by omega)
  rw [Nat.add_zero] at hfst
  rw [← Nat.add_assoc] at hsnd
  rw [hfst, hsnd]
  show aJournalMagic ++ (put32bits v ++ (put32bits cksumInit ++ put32bits (.ofNat 32 n) ++
    put32bits (.ofNat 32 C.sectorSize) ++ put32bits (.ofNat 32 C.pageSize) ++
    List.replicate (C.sectorSize - 28) 0).take (C.sectorSize - 12)) = _
  rw [List.take_of_length_le (by simp; omega)]
  simp [journalHdr]

/-- What `pager_playback_one_page` reads of a record is what was written there. -/
theorem read_journalRec {r : PageRec} {o : Nat} (hr : r.data.length = C.pageSize)
    (hread : c.read o C.journalPgSz = journalRec C cksumInit r) :
    sqlite3Get4byte (c.read o 4) = .ofNat 32 r.pgno ∧ c.read (o + 4) C.pageSize = r.data ∧
    sqlite3Get4byte (c.read (o + C.pageSize + 4) 4) = pagerCksum C cksumInit r.data := by
  have hsz : C.journalPgSz = C.pageSize + 8 := rfl
  refine ⟨?_, ?_, ?_⟩
  · have hpart := Content.read_part (a := 0) (m := 4) hread (by omega)
    rw [Nat.add_zero] at hpart
    rw [hpart]
    exact get4byte_put32bits _
  · rw [Content.read_part hread (by omega)]
    show (r.data ++ _).take C.pageSize = r.data
    rw [← hr, List.take_left]
  · rw [Nat.add_assoc, Content.read_part hread (by omega), Nat.add_comm C.pageSize]
    have hdrop : (journalRec C cksumInit r).drop (4 + C.pageSize)
        = put32bits (pagerCksum C cksumInit r.data) := by
      rw [← hr]
      exact List.drop_left' (by simp)
    rw [hdrop]
    exact get4byte_put32bits _

end

/-! ### What a file holds -/

/-- The records `rs` lie one behind the other from offset `o` up to offset `e`. -/
def Records (c : Content UInt8) (cksumInit : BitVec 32) : Nat → List PageRec → Nat → Prop
  | o, [], e => o = e
  | o, r :: rs, e => c.read o C.journalPgSz = journalRec C cksumInit r ∧
      Records c cksumInit (o + C.journalPgSz) rs e

/-- A header's `cksumInit`, and the records behind the header, up to the next. -/
structure Segment where
  cksumInit : BitVec 32
  recs : List PageRec

/-- The segments `segs` lie one behind the other from offset `o` up to offset `e`, and their headers
    count their records. -/
def Segments (c : Content UInt8) (n : Nat) : Nat → List Segment → Nat → Prop
  | o, [], e => o = e
  | o, seg :: segs, e =>
      c.read (journalHdrOffset C o) C.sectorSize
        = journalHdr C (.ofNat 32 seg.recs.length) seg.cksumInit n ∧
      ∃ m, Records C c seg.cksumInit (journalHdrOffset C o + C.sectorSize) seg.recs m ∧
        Segments c n m segs e

/-- A rollback from the file goes through the segments `segs`, and ends behind them. -/
def Parsed (c : Content UInt8) (n : Nat) (segs : List Segment) : Prop :=
  ∃ e, Segments C c n 0 segs e ∧ e ≤ c.size ∧
    (c.size < journalHdrOffset C e + C.sectorSize ∨
      c.read (journalHdrOffset C e) 8 ≠ aJournalMagic)

variable {C} {c c' : Content UInt8} {cksumInit : BitVec 32} {n o e : Nat} {r : PageRec}
  {rs : List PageRec} {segs segs' : List Segment}

/-- Where a list of records ends, since they all have one length. -/
theorem Records.end_eq (h : Records C c cksumInit o rs e) :
    e = o + rs.length * C.journalPgSz := by
  induction rs generalizing o with
  | nil =>
    obtain rfl : o = e := h
    simp
  | cons r rs ih =>
    rw [ih h.2, List.length_cons, Nat.add_mul, Nat.one_mul]
    omega

/-- Records are still there when their bytes are, whatever lies around them. -/
theorem Records.congr (h : Records C c cksumInit o rs e)
    (hbyte : ∀ i, o ≤ i → i < e → c'.byte i = c.byte i) : Records C c' cksumInit o rs e := by
  induction rs generalizing o with
  | nil => exact h
  | cons r rs ih =>
    have hend := h.2.end_eq
    refine ⟨?_, ih h.2 fun i hle => hbyte i (by omega)⟩
    rw [← h.1]
    exact Content.read_congr fun i hle hlt => hbyte i hle (by omega)

/-- One more record at the end, read where the others end. -/
theorem Records.snoc (h : Records C c cksumInit o rs e)
    (hread : c.read e C.journalPgSz = journalRec C cksumInit r) :
    Records C c cksumInit o (rs ++ [r]) (e + C.journalPgSz) := by
  induction rs generalizing o with
  | nil =>
    obtain rfl : o = e := h
    exact ⟨hread, rfl⟩
  | cons r' rs ih => exact ⟨h.1, ih h.2⟩

/-- Segments do not end before they begin: each is at least a header long. -/
theorem Segments.le (h : Segments C c n o segs e) : o ≤ e := by
  induction segs generalizing o with
  | nil => exact Nat.le_of_eq h
  | cons seg segs ih =>
    obtain ⟨-, m, hrecs, hrest⟩ := h
    have hm := hrecs.end_eq
    have hle := le_journalHdrOffset C o
    have hrest := ih hrest
    omega

/-- Segments are still there when their bytes are: they depend on nothing else in the file. -/
theorem Segments.congr (h : Segments C c n o segs e)
    (hbyte : ∀ i, o ≤ i → i < e → c'.byte i = c.byte i) : Segments C c' n o segs e := by
  induction segs generalizing o with
  | nil => exact h
  | cons seg segs ih =>
    obtain ⟨hhdr, m, hrecs, hrest⟩ := h
    have hm := hrecs.end_eq
    have hle := le_journalHdrOffset C o
    have hme := hrest.le
    refine ⟨?_, m, hrecs.congr fun i hlo hhi => hbyte i (by omega) (by omega),
      ih hrest fun i hlo => hbyte i (by omega)⟩
    rw [← hhdr]
    exact Content.read_congr fun i hlo hhi => hbyte i (by omega) (by omega)

/-- A list of segments in two parts: the second part begins where the first one ends. -/
theorem segments_append : Segments C c n o (segs ++ segs') e ↔
    ∃ m, Segments C c n o segs m ∧ Segments C c n m segs' e := by
  induction segs generalizing o with
  | nil =>
    constructor
    · intro h
      exact ⟨o, rfl, h⟩
    · rintro ⟨m, hm, h⟩
      obtain rfl : o = m := hm
      exact h
  | cons seg segs ih =>
    constructor
    · rintro ⟨hhdr, m, hrecs, hrest⟩
      obtain ⟨k, hfst, hsnd⟩ := ih.mp hrest
      exact ⟨k, ⟨hhdr, m, hrecs, hfst⟩, hsnd⟩
    · rintro ⟨k, ⟨hhdr, m, hrecs, hfst⟩, hsnd⟩
      exact ⟨hhdr, m, hrecs, ih.mpr ⟨k, hfst, hsnd⟩⟩

end Ecos.Sqlite.Rollback
