import Ecos.Lib.Run
import Ecos.Fat.Cursor

namespace Ecos.Fat

open Ecos.Lib

/-!
# A file is a byte array

What a FAT file is for, when one descriptor is open on it: a byte array with an offset, which
seeks may move beyond the end of the array and writes there fill with zeros.

* `ByteFile`, `ByteFile.call` — the byte array and its operations, which are defined for the
  calls whose offsets stay below `2 ^ 31`;
* `TransferLaws` — the support code transfers a part of the buffer that is not empty, and the
  cursor moves by as much;
* `readVec_total`, `fillHole_total`, `writeVec_total` — the loops end, and transfer everything;
* `file_is_byte_array` — after an open, every sequence of calls on the file gives the answers of
  the byte array.

`content d e k` is the byte at offset `k` of the data of the file with entry `e`; behind the end
of the file it is arbitrary.
-/

/-! ### The byte array -/

/-- A byte array with an offset: what an open file is to its user. -/
structure ByteFile where
  bytes : List UInt8
  /-- Do writes go to the end? -/
  append : Bool
  offset : Nat
  deriving DecidableEq, Repr

/-- Where a seek counts from: the start, the offset or the end. -/
def ByteFile.base (f : ByteFile) : Whence → Option Nat
  | .SEEK_SET => some 0
  | .SEEK_CUR => some f.offset
  | .SEEK_END => some f.bytes.length
  | .other => none

/-- Where a write goes: to the end when appending, and to the offset otherwise. -/
def ByteFile.start (f : ByteFile) : Nat := if f.append then f.bytes.length else f.offset

/-- Seeks move the offset only, and not before the start or past the largest offset. -/
def ByteFile.lseek (f : ByteFile) (apos : BitVec 32) (base : Nat) :
    Option ((Err × FileRet) × ByteFile) :=
  let pos := apos.toInt + base
  if 0 ≤ pos ∧ pos < 2 ^ 31 then
    some ((.ENOERR, .pos (BitVec.ofInt 32 pos)), { f with offset := pos.toNat })
  else none

/-- Reads return the bytes from the offset on, at most as many as asked for, and move the offset
    by as many. -/
def ByteFile.read (f : ByteFile) (uio : Uio) : (Err × FileRet) × ByteFile :=
  let d := (f.bytes.drop f.offset).take uio.lens.sum
  ((.ENOERR, .data (scatter uio.lens d) (uio.resid - BitVec.ofNat 32 d.length)),
    { f with offset := f.offset + d.length })

/-- Writes put all bytes at their place, behind zeros if that is beyond the end, and move the
    offset to the end of what was written. -/
def ByteFile.write (f : ByteFile) (uio : Uio) : (Err × FileRet) × ByteFile :=
  ((.ENOERR, .resid (uio.resid - BitVec.ofNat 32 uio.data.length)),
    { f with
      bytes := writeAt 0 f.bytes f.start uio.data
      offset := f.start + uio.data.length })

/-- The operations of a byte array, with the answers that its user gets. -/
def ByteFile.call (f : ByteFile) : FileCall → Option ((Err × FileRet) × ByteFile)
  | .lseek apos whence => (f.base whence).bind (f.lseek apos)
  | .read uio => some (f.read uio)
  | .write mem uio =>
    if mem ∧ uio.data ≠ [] ∧ f.start + uio.data.length < 2 ^ 31 then some (f.write uio) else none

/-! ### The support code -/

/-- How the support code transfers data, when there is no disk error: positions move with the
    bytes. -/
structure TransferLaws {Disk Pos : Type} (S : FatSupport Disk Pos) (off : Pos → Nat)
    (content : Disk → Dentry → Nat → UInt8) : Prop extends PlaceLaws S off where
  /-- Placing the cursor succeeds, and leaves the data alone. -/
  setpos_ok : ∀ d e p n, n ≤ e.size →
    (S.setpos d e p n).1 = .ENOERR ∧ content (S.setpos d e p n).2.1 e = content d e
  /-- A read within the file delivers some of the bytes at the cursor. -/
  readData : ∀ d e p l, 0 < l.toNat → off p + l.toNat ≤ e.size.toNat →
    ∃ d' p' k, S.readData d e p l = (.ENOERR, d', p', slice (content d e) (off p) k) ∧
      0 < k ∧ k ≤ l.toNat ∧ off p' = off p + k ∧ content d' e = content d e
  /-- A write stores some of the bytes at the cursor. -/
  writeData : ∀ d e p buf, buf ≠ [] → off p + buf.length < 2 ^ 31 →
    ∃ d' e' p' l, S.writeData d e p buf = (.ENOERR, d', e', p', l) ∧
      0 < l.toNat ∧ l.toNat ≤ buf.length ∧ off p' = off p + l.toNat ∧ e'.size = e.size ∧
      content d' e' = overwrite (content d e) (off p) (buf.take l.toNat)
  /-- The size of a file does not say where its data is. -/
  resize : ∀ d e n, content d { e with size := n } = content d e

variable {Disk Pos : Type} {S : FatSupport Disk Pos} {off : Pos → Nat}
  {content : Disk → Dentry → Nat → UInt8} {h h' : Handle Disk Pos} {x x' : Xfer Disk Pos}
  {fuel : Nat}

/-- The file that a descriptor is open on, as a byte array, up to its size. -/
def Handle.view (content : Disk → Dentry → Nat → UInt8) (h : Handle Disk Pos) : ByteFile :=
  ⟨slice (content h.disk h.dentry) 0 h.dentry.size.toNat, h.append, h.offset.toNat⟩

/-! ### Reading -/

/-- What a read loop does that transfers `n` bytes: the position moves on by these and nothing else
    changes. -/
structure Xfer.Fetch (off : Pos → Nat) (content : Disk → Dentry → Nat → UInt8)
    (x x' : Xfer Disk Pos) (n : Nat) : Prop where
  coherent : x'.Coherent off
  dentry : x'.dentry = x.dentry
  pos : x'.pos.toNat = x.pos.toNat + n
  resid : x'.resid = x.resid - BitVec.ofNat 32 n
  content : content x'.disk x'.dentry = content x.disk x.dentry

/-- Nothing fetched, at the end of a loop. -/
theorem Xfer.Fetch.refl (hc : x.Coherent off) : x.Fetch off content x 0 :=
  ⟨hc, rfl, rfl, (BitVec.sub_zero _).symm, rfl⟩

/-- One fetch behind the other is a fetch of as many bytes as both. -/
theorem Xfer.Fetch.trans {x'' : Xfer Disk Pos} {n n' : Nat} (h : x.Fetch off content x' n)
    (h' : x'.Fetch off content x'' n') : x.Fetch off content x'' (n + n') := by
  refine ⟨h'.coherent, h'.dentry.trans h.dentry, ?_, ?_, h'.content.trans h.content⟩
  · rw [h'.pos, h.pos]
    omega
  · rw [h'.resid, h.resid, BitVec.ofNat_add]
    bv_omega

/-- How many bytes of `len` there are to read before the end of the file. -/
def Xfer.avail (x : Xfer Disk Pos) (len : Nat) : Nat := min len (x.dentry.size.toNat - x.pos.toNat)

/-- **The read loop ends**, and delivers what there is of the `len` bytes at the offset. -/
theorem readVec_total (L : TransferLaws S off content) {len : Nat} (hc : x.Coherent off)
    (hlen : len < 2 ^ 31) (hfuel : len < fuel) :
    ∃ x', readVec S fuel x len
        = some (.ENOERR, x', slice (content x.disk x.dentry) x.pos.toNat (x.avail len)) ∧
      x.Fetch off content x' (x.avail len) := by
  induction fuel generalizing x len with
  | zero => omega
  | succ fuel ih =>
    have hsize := x.dentry.size.isLt
    by_cases hloop : 0 < len ∧ x.pos < x.dentry.size
    · obtain ⟨hpos, hlt⟩ := hloop
      have hlt' := BitVec.lt_def.mp hlt
      -- what the loop asks for
      have hask : (if x.dentry.size - x.pos < BitVec.ofNat 32 len then x.dentry.size - x.pos
          else BitVec.ofNat 32 len).toNat = x.avail len := by
        have hrest : (x.dentry.size - x.pos).toNat = x.dentry.size.toNat - x.pos.toNat :=
          BitVec.toNat_sub_of_le (by rw [BitVec.le_def]; omega)
        have hofNat : (BitVec.ofNat 32 len).toNat = len := by
          rw [BitVec.toNat_ofNat]
          omega
        simp only [BitVec.lt_def, hrest, hofNat, Xfer.avail]
        split <;> omega
      have havail : x.avail len = min len (x.dentry.size.toNat - x.pos.toNat) := rfl
      have hcur : off x.cursor = x.pos.toNat := by
        rw [hc]
        omega
      obtain ⟨d', p', k, hread, hk, hkle, hmoved, hsame⟩ :=
        L.readData x.disk x.dentry x.cursor _ (by rw [hask]; omega) (by rw [hask, hcur]; omega)
      rw [hask] at hkle
      -- the state after one iteration
      have hpos' : (x.pos + BitVec.ofNat 32 k).toNat = x.pos.toNat + k := by
        rw [BitVec.toNat_add, BitVec.toNat_ofNat]
        omega
      let y : Xfer Disk Pos :=
        ⟨d', x.dentry, p', x.pos + BitVec.ofNat 32 k, x.resid - BitVec.ofNat 32 k⟩
      have hstep : x.Fetch off content y k := by
        refine ⟨?_, rfl, hpos', rfl, hsame⟩
        show off p' = min (x.pos + BitVec.ofNat 32 k).toNat x.dentry.size.toNat
        rw [hmoved, hcur, hpos']
        omega
      obtain ⟨x', hrest, hfetch⟩ := ih hstep.coherent (by omega : len - k < 2 ^ 31) (by omega)
      have hleft : x.avail len = k + y.avail (len - k) := by
        have hy : y.avail (len - k) = min (len - k)
            (x.dentry.size.toNat - (x.pos + BitVec.ofNat 32 k).toNat) := rfl
        rw [hy, hpos', havail]
        omega
      refine ⟨x', ?_, ?_⟩
      · simp only [readVec, hpos, hlt, and_self, if_true, hread, length_slice]
        rw [hrest, Option.map_some, hcur, hleft, ← slice_append]
        have hdata : slice (content d' x.dentry) (x.pos + BitVec.ofNat 32 k).toNat
            (y.avail (len - k)) = slice (content x.disk x.dentry) (x.pos.toNat + k)
            (y.avail (len - k)) := by rw [hsame, hpos']
        rw [← hdata]
      · rw [hleft]
        exact hstep.trans hfetch
    · -- nothing to read
      have hzero : x.avail len = 0 := by
        rw [BitVec.lt_def] at hloop
        unfold Xfer.avail
        omega
      refine ⟨x, ?_, ?_⟩
      · rw [hzero]
        simp only [readVec, hloop, if_false, slice_zero]
      · rw [hzero]
        exact .refl hc

/-- **The read loops end**: the vectors share what there is of the bytes at the offset. -/
theorem readVecs_total (L : TransferLaws S off content) {lens : List Nat}
    (hc : x.Coherent off) (hlens : ∀ len ∈ lens, len < 2 ^ 31) (hfuel : 2 ^ 31 ≤ fuel) :
    ∃ x', readVecs S fuel x lens = some (.ENOERR, x',
        scatter lens (slice (content x.disk x.dentry) x.pos.toNat (x.avail lens.sum))) ∧
      x.Fetch off content x' (x.avail lens.sum) := by
  induction lens generalizing x with
  | nil =>
    have hzero : x.avail ([] : List Nat).sum = 0 := by simp [Xfer.avail]
    rw [hzero]
    exact ⟨x, rfl, .refl hc⟩
  | cons len lens ih =>
    have hlen := hlens len List.mem_cons_self
    obtain ⟨y, hvec, hfirst⟩ := readVec_total L hc hlen (by omega : len < fuel)
    obtain ⟨x', hrest, hfetch⟩ := ih hfirst.coherent
      (fun n hn => hlens n (List.mem_cons_of_mem _ hn))
    have hy : y.avail lens.sum
        = min lens.sum (x.dentry.size.toNat - (x.pos.toNat + x.avail len)) := by
      rw [Xfer.avail, hfirst.dentry, hfirst.pos]
    have havail : x.avail len = min len (x.dentry.size.toNat - x.pos.toNat) := rfl
    have hsum : x.avail (len :: lens).sum = x.avail len + y.avail lens.sum := by
      rw [hy, Xfer.avail, List.sum_cons]
      omega
    refine ⟨x', ?_, ?_⟩
    · simp only [readVecs, hvec]
      rw [hrest, Option.map_some, hsum, ← slice_append, scatter_cons]
      · rw [hfirst.content, hfirst.pos]
      · rw [length_slice]
        omega
      · -- the second vector gets something only when the first one is full
        rw [length_slice]
        by_cases hfull : x.avail len = len
        · exact Or.inl hfull
        · have hnone : y.avail lens.sum = 0 := by omega
          exact Or.inr (by rw [hnone, slice_zero])
    · rw [hsum]
      exact hfirst.trans hfetch

/-! ### Writing -/

/-- What a write loop does that transfers the bytes `d`: they are in the file, and the rest is as
    it was. -/
structure Xfer.Stored (off : Pos → Nat) (content : Disk → Dentry → Nat → UInt8)
    (x x' : Xfer Disk Pos) (d : List UInt8) : Prop where
  advance : x.Advance off x' d.length
  content : content x'.disk x'.dentry
    = overwrite (content x.disk x.dentry) (off x.cursor) d

/-- Nothing stored, at the end of a loop. -/
theorem Xfer.Stored.refl (x : Xfer Disk Pos) : x.Stored off content x [] :=
  ⟨.refl x, (overwrite_nil _ _).symm⟩

/-- One store behind the other is a store of the bytes of both. -/
theorem Xfer.Stored.trans {x'' : Xfer Disk Pos} {d d' : List UInt8}
    (h : x.Stored off content x' d) (h' : x'.Stored off content x'' d') :
    x.Stored off content x'' (d ++ d') := by
  refine ⟨?_, ?_⟩
  · rw [List.length_append]
    exact h.advance.trans h'.advance
  · rw [h'.content, h.content, h.advance.cursor, overwrite_append]

/-- **The loop that fills the hole ends**, and writes all of its bytes. -/
theorem fillHole_total (L : TransferLaws S off content) {buf : List UInt8}
    (hfit : off x.cursor + buf.length < 2 ^ 31) (hfuel : buf.length < fuel) :
    ∃ x', fillHole S fuel x buf = some (.ENOERR, x') ∧
      off x'.cursor = off x.cursor + buf.length ∧ x'.dentry.size = x.dentry.size ∧
      content x'.disk x'.dentry
        = overwrite (content x.disk x.dentry) (off x.cursor) buf := by
  induction fuel generalizing x buf with
  | zero => omega
  | succ fuel ih =>
    by_cases hnil : buf = []
    · subst hnil
      exact ⟨x, by simp [fillHole], rfl, rfl, (overwrite_nil _ _).symm⟩
    · obtain ⟨d', e', p', l, hwrite, hl, hle, hmoved, hsize, hdata⟩ :=
        L.writeData x.disk x.dentry x.cursor buf hnil hfit
      have hdrop : (buf.drop l.toNat).length = buf.length - l.toNat := List.length_drop
      have hfit' : off (⟨d', e', p', x.pos, x.resid⟩ : Xfer Disk Pos).cursor
          + (buf.drop l.toNat).length < 2 ^ 31 := by
        rw [hdrop, hmoved]
        omega
      obtain ⟨x', hrest, hcur, hsz, hcontent⟩ := ih hfit' (by omega)
      refine ⟨x', ?_, ?_, hsz.trans hsize, ?_⟩
      · simp only [fillHole, hnil, if_false, hwrite]
        exact hrest
      · rw [hcur, hmoved, hdrop]
        omega
      · -- writing in pieces is writing at once
        have hpiece : off p' = off x.cursor + (buf.take l.toNat).length := by
          rw [hmoved, List.length_take]
          omega
        rw [hcontent]
        show overwrite (content d' e') (off p') _ = _
        rw [hdata, hpiece, overwrite_append, List.take_append_drop]

/-- **The loop that writes one vector ends**, and writes all of its bytes. -/
theorem writeVec_total (L : TransferLaws S off content) {buf : List UInt8}
    (hfit : off x.cursor + buf.length < 2 ^ 31) (hfuel : buf.length < fuel) :
    ∃ x', writeVec S fuel .ENOERR x buf = some (.next .ENOERR, x') ∧
      x.Stored off content x' buf := by
  induction fuel generalizing x buf with
  | zero => omega
  | succ fuel ih =>
    by_cases hnil : buf = []
    · subst hnil
      exact ⟨x, by simp [writeVec], .refl x⟩
    · obtain ⟨d', e', p', l, hwrite, hl, hle, hmoved, hsize, hdata⟩ :=
        L.writeData x.disk x.dentry x.cursor buf hnil hfit
      -- one turn stores `l` bytes, and the rest of the vector is left
      have hdrop : (buf.drop l.toNat).length = buf.length - l.toNat := List.length_drop
      have htake : (buf.take l.toNat).length = l.toNat := by
        rw [List.length_take]
        omega
      have hstep : x.Stored off content ⟨d', e', p', x.pos + l, x.resid - l⟩
          (buf.take l.toNat) := by
        refine ⟨⟨?_, ?_, ?_, hsize⟩, hdata⟩
        · rw [htake]
          exact hmoved
        · rw [htake]
          simp
        · rw [htake]
          simp
      -- what is left still fits below 2^31
      have hfit' : off (⟨d', e', p', x.pos + l, x.resid - l⟩ : Xfer Disk Pos).cursor
          + (buf.drop l.toNat).length < 2 ^ 31 := by
        rw [hdrop, hmoved]
        omega
      obtain ⟨x', hrest, hstored⟩ := ih hfit' (by omega)
      refine ⟨x', ?_, ?_⟩
      · simp only [writeVec, hnil, if_false, hwrite, reduceCtorEq, ne_eq, not_true_eq_false]
        exact hrest
      · have hall := hstep.trans hstored
        rwa [List.take_append_drop] at hall

/-- **The write loops end**, and write the bytes of all vectors when there is room for them. -/
theorem writeVecs_total (L : TransferLaws S off content) {vs : List Iovec}
    (hfit : off x.cursor + (vs.flatMap Iovec.buf).length < 2 ^ 31) (hfuel : 2 ^ 31 ≤ fuel) :
    ∃ x', writeVecs S fuel .ENOERR x vs = some (.next .ENOERR, x') ∧
      x.Stored off content x' (vs.flatMap Iovec.buf) := by
  induction vs generalizing x with
  | nil => exact ⟨x, rfl, .refl x⟩
  | cons v vs ih =>
    rw [List.flatMap_cons, List.length_append] at hfit
    have hv := v.len_lt
    obtain ⟨y, hvec, hfirst⟩ := writeVec_total L
      (by omega : off x.cursor + v.buf.length < 2 ^ 31) (by omega : v.buf.length < fuel)
    obtain ⟨x', hrest, hstored⟩ := ih (x := y) (by rw [hfirst.advance.cursor]; omega)
    refine ⟨x', ?_, ?_⟩
    · simp only [writeVecs, hvec]
      exact hrest
    · rw [List.flatMap_cons]
      exact hfirst.trans hstored

/-! ### The operations -/

/-- Reading: what the byte array answers, the read loops answer. -/
theorem foRead_refines (L : TransferLaws S off content) (hc : h.Coherent off)
    (hfuel : 2 ^ 31 ≤ fuel) (uio : Uio) :
    ∃ h', h.call S fuel (.read uio) = some (((h.view content).read uio).1, h') ∧
      h'.Coherent off ∧ h'.view content = ((h.view content).read uio).2 := by
  have hlens : ∀ len ∈ uio.lens, len < 2 ^ 31 := by
    intro len hlen
    obtain ⟨v, -, rfl⟩ := List.mem_map.mp hlen
    exact v.len_lt
  obtain ⟨x', hloop, hfetch⟩ := readVecs_total L (x := h.xfer uio) hc hlens hfuel
  -- the bytes that are transferred are those of the byte array
  have hbytes : ((h.view content).bytes.drop (h.view content).offset).take uio.lens.sum
      = slice (content h.disk h.dentry) h.offset.toNat ((h.xfer uio).avail uio.lens.sum) :=
    take_drop_slice _ _ _ _
  have hcount := congrArg List.length hbytes
  rw [length_slice] at hcount
  refine ⟨{ h.partialXfer x' with offset := x'.pos }, ?_, hfetch.coherent, ?_⟩
  · simp only [Handle.call, foRead, hloop, Option.map_some, ByteFile.read, hcount, hfetch.resid]
    rw [hbytes]
    rfl
  · simp only [ByteFile.read, hcount]
    have hpos : x'.pos.toNat = h.offset.toNat + (h.xfer uio).avail uio.lens.sum := hfetch.pos
    have hentry : x'.dentry = h.dentry := hfetch.dentry
    have hdata : content x'.disk h.dentry = content h.disk h.dentry := by
      have hsame := hfetch.content
      rw [hentry] at hsame
      exact hsame
    simp only [Handle.view, Handle.partialXfer, hpos, hdata, hentry]

/-- The loop over the vectors and what follows it, when the cursor is at the offset. -/
theorem writeData_total (L : TransferLaws S off content) {uio : Uio}
    (hat : off h.pos = h.offset.toNat) (hfit : h.offset.toNat + uio.data.length < 2 ^ 31)
    (hfuel : 2 ^ 31 ≤ fuel) :
    ∃ h', writeData S fuel h uio
        = some (.ENOERR, h', uio.resid - BitVec.ofNat 32 uio.data.length) ∧
      h.Wrote off h' h.offset.toNat uio.data.length ∧
      content h'.disk h'.dentry
        = overwrite (content h.disk h.dentry) h.offset.toNat uio.data := by
  have hcur : off (h.xfer uio).cursor = h.offset.toNat := hat
  obtain ⟨x', hloop, hadv, hdata⟩ := writeVecs_total (x := h.xfer uio) L
    (by rw [hcur]; exact hfit) hfuel
  have hcursor : off x'.cursor = off (h.xfer uio).cursor + uio.data.length := hadv.cursor
  have hpos : x'.pos.toNat = h.offset.toNat + uio.data.length := by
    have hmoved : x'.pos = h.offset + BitVec.ofNat 32 uio.data.length := hadv.pos
    rw [hmoved, BitVec.toNat_add, BitVec.toNat_ofNat]
    omega
  -- the size is set when the end has moved
  have hsize : (if x'.dentry.size < x'.pos then x'.pos else x'.dentry.size).toNat
      = max h.dentry.size.toNat (h.offset.toNat + uio.data.length) := by
    have heq : x'.dentry.size.toNat = h.dentry.size.toNat := congrArg BitVec.toNat hadv.size
    simp only [BitVec.lt_def]
    split <;> omega
  refine ⟨{ h.partialXfer x' with
    dentry := { x'.dentry with
      size := if x'.dentry.size < x'.pos then x'.pos else x'.dentry.size }
    offset := x'.pos }, ?_, ⟨?_, hpos, hsize, rfl⟩, ?_⟩
  · simp only [writeData, hloop, hadv.resid]
    rfl
  · show off x'.cursor = min x'.pos.toNat _
    rw [hcursor, hcur, hpos, hsize]
    omega
  · show content x'.disk { x'.dentry with size := _ } = _
    rw [L.resize, hdata, hcur]
    rfl

/-- Writing at the offset: behind the end of the file, zeros are written first. -/
theorem writeAtOffset_total (L : TransferLaws S off content) {uio : Uio}
    (hc : h.Coherent off) (hfit : h.offset.toNat + uio.data.length < 2 ^ 31)
    (hfuel : 2 ^ 31 ≤ fuel) :
    ∃ h', writeAtOffset S fuel true h uio
        = some (.ENOERR, h', uio.resid - BitVec.ofNat 32 uio.data.length) ∧
      h.Wrote off h' h.offset.toNat uio.data.length ∧
      content h'.disk h'.dentry = overwrite (overwrite (content h.disk h.dentry)
        h.dentry.size.toNat (List.replicate (h.offset.toNat - h.dentry.size.toNat) 0))
        h.offset.toNat uio.data := by
  by_cases hlt : h.dentry.size < h.offset
  · -- the cursor is at the end of the file; the zeros bring it to the offset
    have hlt' := BitVec.lt_def.mp hlt
    have hcur : off (h.xfer uio).cursor = h.dentry.size.toNat := by
      have hstart : off (h.xfer uio).cursor = min h.offset.toNat h.dentry.size.toNat := hc
      omega
    have hhole := hole_eq (h := h) (Or.inr (by omega)) hlt
    have hlen : h.hole.length = h.offset.toNat - h.dentry.size.toNat := by
      rw [hhole, List.length_replicate]
    obtain ⟨y, hfill, hmoved, hsize, hzeros⟩ := fillHole_total L
      (by omega : off (h.xfer uio).cursor + h.hole.length < 2 ^ 31)
      (by omega : h.hole.length < fuel)
    have hat : off (h.partialXfer y).pos = (h.partialXfer y).offset.toNat := by
      show off y.cursor = h.offset.toNat
      omega
    obtain ⟨h', hwrite, hwrote, hdata⟩ := writeData_total L hat hfit hfuel
    have hcopy : (h.partialXfer y).dentry.size = h.dentry.size := hsize
    refine ⟨h', ?_, ⟨hwrote.coherent, hwrote.offset, ?_, hwrote.append⟩, ?_⟩
    · simp only [writeAtOffset, hlt, if_true, hfill]
      exact hwrite
    · rw [hwrote.size, hcopy]
      rfl
    · rw [hdata, ← hhole, ← hcur]
      exact congrArg (fun c => overwrite c h.offset.toNat uio.data) hzeros
  · -- the cursor is at the offset, and there is no hole
    have hle : h.offset.toNat ≤ h.dentry.size.toNat := by
      rw [BitVec.lt_def] at hlt
      omega
    have hat : off h.pos = h.offset.toNat := by
      rw [hc]
      omega
    obtain ⟨h', hwrite, hwrote, hdata⟩ := writeData_total L hat hfit hfuel
    refine ⟨h', ?_, hwrote, ?_⟩
    · simp only [writeAtOffset, hlt, if_false]
      exact hwrite
    · rw [hdata, Nat.sub_eq_zero_of_le hle, List.replicate_zero, overwrite_nil]

/-- Going to the end of the file leaves the data alone, and the entry. -/
theorem content_toEnd (L : TransferLaws S off content) (h : Handle Disk Pos) :
    content (h.toEnd S).disk (h.toEnd S).dentry = content h.disk h.dentry := by
  unfold Handle.toEnd
  split
  · exact (L.setpos_ok _ _ _ _ (BitVec.le_refl _)).2
  · rfl

/-- Writing: what the byte array holds after it, the file holds, with the hole before it filled. -/
theorem foWrite_refines (L : TransferLaws S off content) (hc : h.Coherent off) {uio : Uio}
    (hfit : (h.view content).start + uio.data.length < 2 ^ 31) (hfuel : 2 ^ 31 ≤ fuel) :
    ∃ h', h.call S fuel (.write true uio) = some (((h.view content).write uio).1, h') ∧
      h'.Coherent off ∧ h'.view content = ((h.view content).write uio).2 := by
  have hstart : (h.view content).start = h.start.toNat := by
    simp only [ByteFile.start, Handle.view, length_slice, Handle.start]
    split <;> rfl
  rw [hstart] at hfit
  -- in append mode, the cursor goes to the end of the file first
  obtain ⟨hc₁, hoff, hdentry, happ⟩ := toEnd_spec L.toPlaceLaws hc
  obtain ⟨h', hwrite, hwrote, hdata⟩ := writeAtOffset_total L hc₁ (by rw [hoff]; exact hfit)
    hfuel
  rw [content_toEnd L] at hdata
  rw [hdentry, hoff] at hdata
  rw [hoff] at hwrote
  have hsize := hwrote.size
  rw [hdentry] at hsize
  refine ⟨h', ?_, hwrote.coherent, ?_⟩
  · simp only [Handle.call, foWrite, hwrite, Option.map_some]
    rfl
  · simp only [ByteFile.write, hstart]
    simp only [Handle.view, hdata, hsize, hwrote.offset, hwrote.append, happ, slice_overwrite]

/-- Seeking: the sum of 32 bits is the offset of the byte array, where it has one. -/
theorem foLseek_refines (L : TransferLaws S off content) {apos : BitVec 32}
    {whence : Whence} {r : (Err × FileRet) × ByteFile}
    (hcall : (h.view content).call (.lseek apos whence) = some r) :
    ∃ h', h.call S fuel (.lseek apos whence) = some (r.1, h') ∧
      h'.Coherent off ∧ h'.view content = r.2 := by
  obtain ⟨base, hbase, hseek⟩ := Option.bind_eq_some_iff.mp hcall
  simp only [ByteFile.lseek] at hseek
  split at hseek
  swap
  · cases hseek
  rename_i hrange
  obtain rfl := Option.some.inj hseek
  obtain ⟨hneg, hfit⟩ := hrange
  -- the position that the code computes modulo `2 ^ 32` is the one of the byte array
  have hto : h.seekTo apos whence = some (BitVec.ofInt 32 (apos.toInt + base)) := by
    have hsum : ∀ b : BitVec 32, b.toNat = base →
        apos + b = BitVec.ofInt 32 (apos.toInt + base) := by
      rintro b rfl
      rw [BitVec.ofInt_add, BitVec.ofInt_toInt, BitVec.ofInt_natCast, BitVec.ofNat_toNat,
        BitVec.setWidth_eq]
    cases whence with
    | SEEK_SET =>
      obtain rfl : 0 = base := Option.some.inj hbase
      simp [Handle.seekTo]
    | SEEK_CUR => exact congrArg some (hsum h.offset (Option.some.inj hbase))
    | SEEK_END =>
      refine congrArg some (hsum h.dentry.size ?_)
      simpa [ByteFile.base, Handle.view] using hbase
    | other => cases hbase
  generalize hp : BitVec.ofInt 32 (apos.toInt + base) = pos at hto ⊢
  have hnat : pos.toNat = (apos.toInt + base).toNat := by
    rw [← hp, BitVec.toNat_ofInt]
    congr 1
    exact Int.emod_eq_of_lt hneg (by omega)
  have hpos : BitVec.slt pos 0 = false := by
    simp only [BitVec.slt, BitVec.ofNat_eq_ofNat, BitVec.toInt_zero, decide_eq_false_iff_not]
    rw [BitVec.toInt_eq_toNat_cond]
    split <;> omega
  -- the cursor goes to the smaller one of the position and the end of the file
  have hle : (if h.dentry.size < pos then h.dentry.size else pos) ≤ h.dentry.size := by
    split
    · exact BitVec.le_refl _
    · rename_i hnot
      exact BitVec.not_lt.mp hnot
  obtain ⟨hok, hdata⟩ := L.setpos_ok h.disk h.dentry h.pos _ hle
  rcases hset : S.setpos h.disk h.dentry h.pos
    (if h.dentry.size < pos then h.dentry.size else pos) with ⟨err, d', p'⟩
  rw [hset] at hok hdata
  obtain rfl : err = .ENOERR := hok
  have hres : foLseek S h apos whence
      = (.ENOERR, { h with disk := d', pos := p', offset := pos }, pos) := by
    simp only [foLseek, hto, hpos, Bool.false_eq_true, if_false, hset]
  obtain ⟨hcoh, -, -, -⟩ := foLseek_spec L.toPlaceLaws hres
  refine ⟨{ h with disk := d', pos := p', offset := pos }, ?_, hcoh, ?_⟩
  · simp only [Handle.call, hres]
  · simp only [Handle.view, hnat]
    rw [show content d' h.dentry = content h.disk h.dentry from hdata]

/-- **Every operation.**  What the byte array answers, the file answers, and it is again a view of
    the file. -/
theorem call_refines (L : TransferLaws S off content) (hc : h.Coherent off) {c : FileCall}
    {r : (Err × FileRet) × ByteFile} (hcall : (h.view content).call c = some r)
    (hfuel : 2 ^ 31 ≤ fuel) :
    ∃ h', h.call S fuel c = some (r.1, h') ∧ h'.Coherent off ∧ h'.view content = r.2 := by
  cases c with
  | lseek apos whence => exact foLseek_refines L hcall
  | read uio =>
    obtain rfl := Option.some.inj hcall
    exact foRead_refines L hc hfuel uio
  | write mem uio =>
    simp only [ByteFile.call] at hcall
    split at hcall
    · rename_i hok
      obtain ⟨rfl, -, hfit⟩ := hok
      obtain rfl := Option.some.inj hcall
      exact foWrite_refines L hc hfit hfuel
    · cases hcall

/-! ### Whole histories -/

variable {s s' : FatState Disk Pos} {i : Nat}

/-- A handle that was written back is found again, so that calls can follow each other. -/
theorem handle_store (hh : s.handle i = some h) (h' : Handle Disk Pos) :
    (s.store i h').handle i = some h' := by
  obtain ⟨f, hf, -⟩ := Option.map_eq_some_iff.mp hh
  simp [FatState.handle, FatState.store, hf, FatState.handleOf]

/-- Calls on one file, one after the other, by induction on the calls. -/
theorem exec_refines (L : TransferLaws S off content) (hfuel : 2 ^ 31 ≤ fuel)
    {calls : List FileCall} {rets : List (Err × FileRet)} {f' : ByteFile}
    (hh : s.handle i = some h) (hc : h.Coherent off)
    (hrun : LTS.exec ByteFile.call calls (h.view content) = some (rets, f')) :
    ∃ s' h', LTS.exec (fileOp S fuel i) calls s = some (rets, s') ∧ s'.handle i = some h' ∧
      h'.view content = f' := by
  induction calls generalizing s h rets with
  | nil =>
    simp only [LTS.exec, Option.some.injEq, Prod.mk.injEq] at hrun
    obtain ⟨rfl, rfl⟩ := hrun
    exact ⟨s, h, rfl, hh, rfl⟩
  | cons c calls ih =>
    obtain ⟨⟨r, g⟩, hcall, hrun⟩ := Option.bind_eq_some_iff.mp hrun
    obtain ⟨⟨rs, g'⟩, hrest, hrun⟩ := Option.bind_eq_some_iff.mp hrun
    simp only [Option.pure_def, Option.some.injEq, Prod.mk.injEq] at hrun
    obtain ⟨rfl, rfl⟩ := hrun
    obtain ⟨h₁, hop, hc₁, hview⟩ := call_refines L hc hcall hfuel
    rw [← show h₁.view content = g from hview] at hrest
    obtain ⟨s', h', hex, hh', hview'⟩ := ih (handle_store hh h₁) hc₁ hrest
    refine ⟨s', h', ?_, hh', hview'⟩
    have hfirst : fileOp S fuel i s c = some (r, s.store i h₁) := by
      simp [fileOp, hh, hop]
    simp [LTS.exec, hfirst, hex]

/-- A file that was just set up has a coherent descriptor, where the calls on it begin. -/
theorem allocFile_handle (L : PlaceLaws S off) {o : OpenArgs Disk} {n : Nat}
    (ho : allocFile S s o n = (.ENOERR, s')) :
    ∃ h, s'.handle o.file = some h ∧ h.Coherent off := by
  obtain ⟨d, pool, disk, pos, -, hoff, rfl⟩ := allocFile_cases L ho
  have hle := newFile_offset_le o (s.node n).size d
  rw [BitVec.le_def] at hle
  have hdata : (o.newFile (s.node n).size d).data = d := rfl
  refine ⟨⟨disk, s.node n, pos, o.mode.append, (o.newFile (s.node n).size d).offset⟩, ?_, ?_⟩
  · simp only [FatState.handle, FatState.handleOf, Function.update_self, Option.map_some, hdata]
    rfl
  · show off pos = min (o.newFile (s.node n).size d).offset.toNat (s.node n).size.toNat
    rw [hoff]
    omega

/-- **A file is a byte array.**  After an open, whatever the byte array answers to a sequence of
    calls, the calls on the file answer: every call returns, transfers all bytes there are, and
    the file ends up with the bytes, the size and the offset of the byte array; bytes that were
    never written are zero. -/
theorem file_is_byte_array (L : TransferLaws S off content) {o : OpenArgs Disk}
    (ho : fatfsOpen S s o = (.ENOERR, s')) :
    ∃ h, s'.handle o.file = some h ∧
      ∀ fuel calls rets f', 2 ^ 31 ≤ fuel →
        LTS.exec ByteFile.call calls (h.view content) = some (rets, f') →
        ∃ s'' h', LTS.exec (fileOp S fuel o.file) calls s' = some (rets, s'') ∧
          s''.handle o.file = some h' ∧ h'.view content = f' := by
  obtain ⟨found, -, hopen⟩ := fatfsOpen_cases ho
  obtain ⟨h, hh, hc⟩ := allocFile_handle L.toPlaceLaws (openNode_cases hopen)
  exact ⟨h, hh, fun fuel calls rets f' hfuel hrun => exec_refines L hfuel hh hc hrun⟩

/-! ### An instance -/

/-- The files in memory obey the laws. -/
theorem memSupport_transferLaws :
    TransferLaws memSupport id (fun d e => d e.cluster) := by
  refine ⟨memSupport_cursorLaws.toPlaceLaws, fun d e p n _ => ⟨rfl, rfl⟩, ?_, ?_,
    fun d e n => rfl⟩
  · intro d e p l hl _
    refine ⟨d, p + min l.toNat (4 - p % 4), min l.toNat (4 - p % 4), rfl, ?_, ?_, rfl, rfl⟩
    · omega
    · exact Nat.min_le_left _ _
  · intro d e p buf hne _
    have hlen : 0 < buf.length := List.length_pos_iff.mpr hne
    have hnat : (BitVec.ofNat 32 (min buf.length (4 - p % 4))).toNat
        = min buf.length (4 - p % 4) := by
      rw [BitVec.toNat_ofNat]
      exact Nat.mod_eq_of_lt (by omega)
    refine ⟨_, e, p + min buf.length (4 - p % 4), _, rfl, ?_, ?_, ?_, rfl, ?_⟩
    · rw [hnat]
      omega
    · rw [hnat]
      exact Nat.min_le_left _ _
    · rw [hnat]
      rfl
    · rw [hnat]
      exact Function.update_self _ _ _

/-- A seek beyond the end of an empty file, a write there, and a read of the whole file into
    vectors of four and of six bytes. -/
def holeCalls : List FileCall :=
  [.lseek 5 .SEEK_SET, .write true ⟨[⟨[1, 2, 3], Iovec.three_lt⟩], 3⟩, .lseek 0 .SEEK_SET,
    .read ⟨[⟨[0, 0, 0, 0], by decide⟩, ⟨[0, 0, 0, 0, 0, 0], by decide⟩], 10⟩]

/-- What the calls return: the hole is read back as zeros. -/
def holeRets : List (Err × FileRet) :=
  [(.ENOERR, .pos 5), (.ENOERR, .resid 0), (.ENOERR, .pos 0),
    (.ENOERR, .data [[0, 0, 0, 0], [0, 1, 2, 3]] 2)]

/-- A write past the end, and the hole that it leaves, read back through the same descriptor. -/
theorem file_is_byte_array_hole :
    ∃ s' s'' h', fatfsOpen memSupport (oneFile 0) (openArgs 0) = (.ENOERR, s') ∧
      LTS.exec (fileOp memSupport (2 ^ 31) 0) holeCalls s' = some (holeRets, s'') ∧
      s''.handle 0 = some h' ∧
      h'.view (fun d e => d e.cluster) = ⟨[0, 0, 0, 0, 0, 1, 2, 3], false, 8⟩ := by
  obtain ⟨err, s', ho⟩ : ∃ err s', fatfsOpen memSupport (oneFile 0) (openArgs 0) = (err, s') :=
    ⟨_, _, rfl⟩
  obtain rfl : err = .ENOERR := by
    have herr : (fatfsOpen memSupport (oneFile 0) (openArgs 0)).1 = .ENOERR := by decide +kernel
    rwa [ho] at herr
  have hview : ((fatfsOpen memSupport (oneFile 0) (openArgs 0)).2.handle 0).map
      (Handle.view fun d e => d e.cluster) = some ⟨[], false, 0⟩ := by decide +kernel
  obtain ⟨h, hh, hall⟩ := file_is_byte_array memSupport_transferLaws ho
  rw [ho] at hview
  obtain ⟨g, hg, hview⟩ := Option.map_eq_some_iff.mp hview
  obtain rfl := Option.some.inj (hh.symm.trans hg)
  obtain ⟨s'', h', hex, hh', hview'⟩ := hall (2 ^ 31) holeCalls holeRets
    ⟨[0, 0, 0, 0, 0, 1, 2, 3], false, 8⟩ (Nat.le_refl _) (by rw [hview]; decide +kernel)
  exact ⟨s', s'', h', ho, hex, hh', hview'⟩

end Ecos.Fat
