import Ecos.Fat.File

namespace Ecos.Fat

open Ecos.Lib

/-!
# The disk cursor of one descriptor

A descriptor has two offsets, `f_offset` and the disk cursor.  `Handle.Coherent` says how they
belong together: the cursor is at `f_offset`, or at the end of the file when `f_offset` is
beyond it.  This file shows that every file operation on the descriptor keeps them together,
under `CursorLaws`, which say how the support code moves a cursor.

The loops come first: `Xfer.Advance x x' t` is what moving `t` bytes does to the variables of
a loop.  The operations on a handle follow.
-/

/-- How the support code places the cursor; `off` is the byte offset that a position denotes. -/
structure PlaceLaws {Disk Pos : Type} (S : FatSupport Disk Pos) (off : Pos → Nat) : Prop where
  /-- A position is initialised to the start of the file. -/
  initpos : ∀ d e, off (S.initpos d e) = 0
  /-- `fatfs_setpos` places the cursor at the given offset. -/
  setpos : ∀ d e p n, n ≤ e.size → off (S.setpos d e p n).2.2 = n.toNat

/-- How the support code moves the cursor, whatever it does to the data. -/
structure CursorLaws {Disk Pos : Type} (S : FatSupport Disk Pos) (off : Pos → Nat) : Prop
    extends PlaceLaws S off where
  /-- `fatfs_read_data` advances the cursor by the count it reports, which is at most the count
      it was given. -/
  readData : ∀ {d e p l err d' p' buf}, S.readData d e p l = (err, d', p', buf) →
    off p' = off p + buf.length ∧ buf.length ≤ l.toNat
  /-- `fatfs_write_data` advances the cursor by the count it reports, which is at most the count
      it was given, and leaves the size to its caller. -/
  writeData : ∀ {d e p buf err d' e' p' l}, S.writeData d e p buf = (err, d', e', p', l) →
    off p' = off p + l.toNat ∧ l.toNat ≤ buf.length ∧ e'.size = e.size
  /-- A truncated file is empty. -/
  truncFile : ∀ d e, (S.truncFile d e).2.size = 0

variable {Disk Pos : Type} {S : FatSupport Disk Pos} {off : Pos → Nat}
  {h h' : Handle Disk Pos} {x x' : Xfer Disk Pos} {fuel : Nat} {err : Err}

/-- The cursor belongs to the offset: it is there, or at the end of the file. -/
def Handle.Coherent (off : Pos → Nat) (h : Handle Disk Pos) : Prop :=
  off h.pos = min h.offset.toNat h.dentry.size.toNat

instance : Decidable (h.Coherent off) :=
  inferInstanceAs (Decidable (off h.pos = min h.offset.toNat h.dentry.size.toNat))

/-! ### The read loop -/

/-- The same, for the variables of a loop. -/
def Xfer.Coherent (off : Pos → Nat) (x : Xfer Disk Pos) : Prop :=
  off x.cursor = min x.pos.toNat x.dentry.size.toNat

/-- What a read loop does: the cursor stays with `pos`, which does not go beyond the end of the
    file, and the directory entry is not touched. -/
structure Xfer.ReadTo (off : Pos → Nat) (x x' : Xfer Disk Pos) : Prop where
  coherent : x'.Coherent off
  dentry : x'.dentry = x.dentry
  pos : x'.pos = x.pos ∨ x'.pos ≤ x.dentry.size

/-- Nothing read: the cursor is where it was. -/
theorem Xfer.ReadTo.refl (h : x.Coherent off) : x.ReadTo off x := ⟨h, rfl, Or.inl rfl⟩

/-- One read behind the other is a read as far as the second went. -/
theorem Xfer.ReadTo.trans {x'' : Xfer Disk Pos} (h : x.ReadTo off x') (h' : x'.ReadTo off x'') :
    x.ReadTo off x'' := by
  refine ⟨h'.coherent, h'.dentry.trans h.dentry, ?_⟩
  rcases h'.pos with heq | hle
  · rw [heq]
    exact h.pos
  · rw [h.dentry] at hle
    exact Or.inr hle

/-- The loop that fills one vector moves position and cursor together. -/
theorem readVec_spec (L : CursorLaws S off) {len : Nat} {buf : List UInt8}
    (hc : x.Coherent off) (hr : readVec S fuel x len = some (.ENOERR, x', buf)) :
    x.ReadTo off x' := by
  induction fuel generalizing x len buf with
  | zero => simp [readVec] at hr
  | succ fuel ih =>
    simp only [readVec] at hr
    split at hr
    · rename_i hloop
      obtain ⟨-, hlt⟩ := hloop
      split at hr
      · -- the support code reads; the loop goes on
        rename_i disk cursor piece hread
        obtain ⟨⟨err, y, tail⟩, hrest, heq⟩ := Option.map_eq_some_iff.mp hr
        simp only [Prod.mk.injEq] at heq
        obtain ⟨rfl, rfl, -⟩ := heq
        obtain ⟨hmoved, hcount⟩ := L.readData hread
        -- what was read ends before the end of the file, so `pos` does not wrap around
        have hend : x.pos.toNat + piece.length ≤ x.dentry.size.toNat := by
          have hle : piece.length ≤ (x.dentry.size - x.pos).toNat := by
            refine Nat.le_trans hcount ?_
            split
            · exact Nat.le_refl _
            · rename_i hnot
              exact BitVec.le_def.mp (BitVec.not_lt.mp hnot)
          rw [BitVec.lt_def] at hlt
          rw [BitVec.toNat_sub_of_le (by rw [BitVec.le_def]; omega)] at hle
          omega
        have hsize := x.dentry.size.isLt
        have hpos : (x.pos + BitVec.ofNat 32 piece.length).toNat = x.pos.toNat + piece.length := by
          rw [BitVec.toNat_add, BitVec.toNat_ofNat]
          omega
        have hnext : off cursor
            = min (x.pos + BitVec.ofNat 32 piece.length).toNat x.dentry.size.toNat := by
          rw [hmoved, hc, hpos]
          omega
        have hstep : x.ReadTo off ⟨disk, x.dentry, cursor, x.pos + BitVec.ofNat 32 piece.length,
            x.resid - BitVec.ofNat 32 piece.length⟩ := by
          refine ⟨hnext, rfl, Or.inr ?_⟩
          rw [BitVec.le_def, hpos]
          exact hend
        exact hstep.trans (ih hnext hrest)
      · -- an error
        rename_i hne _
        simp only [Option.some.injEq, Prod.mk.injEq] at hr
        exact absurd hr.1 hne
    · simp only [Option.some.injEq, Prod.mk.injEq] at hr
      obtain ⟨-, rfl, -⟩ := hr
      exact .refl hc

/-- The loop over the vectors moves position and cursor together, by induction on the vectors. -/
theorem readVecs_spec (L : CursorLaws S off) {lens : List Nat} {bufs : List (List UInt8)}
    (hc : x.Coherent off) (hr : readVecs S fuel x lens = some (.ENOERR, x', bufs)) :
    x.ReadTo off x' := by
  induction lens generalizing x bufs with
  | nil =>
    simp only [readVecs, Option.some.injEq, Prod.mk.injEq] at hr
    obtain ⟨-, rfl, -⟩ := hr
    exact .refl hc
  | cons len lens ih =>
    simp only [readVecs] at hr
    split at hr
    · cases hr
    · rename_i y buf hvec
      obtain ⟨⟨err, z, tail⟩, hrest, heq⟩ := Option.map_eq_some_iff.mp hr
      simp only [Prod.mk.injEq] at heq
      obtain ⟨rfl, rfl, -⟩ := heq
      have hfirst := readVec_spec L hc hvec
      exact hfirst.trans (ih hfirst.coherent hrest)
    · rename_i err y buf hne hvec
      simp only [Option.some.injEq, Prod.mk.injEq] at hr
      exact absurd hr.1 hne

/-! ### The write loops -/

/-- What a write loop does that transfers `t` bytes: the cursor and the local variables move by
    `t`, and the size is not touched. -/
structure Xfer.Advance (off : Pos → Nat) (x x' : Xfer Disk Pos) (t : Nat) : Prop where
  cursor : off x'.cursor = off x.cursor + t
  pos : x'.pos = x.pos + BitVec.ofNat 32 t
  resid : x'.resid = x.resid - BitVec.ofNat 32 t
  size : x'.dentry.size = x.dentry.size

/-- Nothing written: position, cursor and size are what they were. -/
theorem Xfer.Advance.refl (x : Xfer Disk Pos) : x.Advance off x 0 :=
  ⟨rfl, (BitVec.add_zero _).symm, (BitVec.sub_zero _).symm, rfl⟩

/-- One write behind the other advances by the bytes of both. -/
theorem Xfer.Advance.trans {x'' : Xfer Disk Pos} {t t' : Nat} (h : x.Advance off x' t)
    (h' : x'.Advance off x'' t') : x.Advance off x'' (t + t') := by
  refine ⟨?_, ?_, ?_, h'.size.trans h.size⟩
  · rw [h'.cursor, h.cursor]
    omega
  · rw [h'.pos, h.pos, BitVec.ofNat_add, BitVec.add_assoc]
  · rw [h'.resid, h.resid, BitVec.ofNat_add]
    bv_omega

variable (S) in
/-- How a turn of the loop that fills the hole goes, with `fuel` for the turns behind it. -/
inductive FillTurn (fuel : Nat) (x : Xfer Disk Pos) : List UInt8 → Err → Xfer Disk Pos → Prop
  /-- Nothing is left to write. -/
  | done : FillTurn fuel x [] .ENOERR x
  /-- The first error ends the loop. -/
  | fail {buf : List UInt8} {err : Err} {disk : Disk} {dentry : Dentry} {cursor : Pos}
      {l : BitVec 32} (hne : buf ≠ [])
      (hwrite : S.writeData x.disk x.dentry x.cursor buf = (err, disk, dentry, cursor, l))
      (herr : err ≠ .ENOERR) : FillTurn fuel x buf err { x with disk, dentry, cursor }
  /-- The loop goes on with the rest. -/
  | next {buf : List UInt8} {err : Err} {x' : Xfer Disk Pos} {disk : Disk} {dentry : Dentry}
      {cursor : Pos} {l : BitVec 32} (hne : buf ≠ [])
      (hwrite : S.writeData x.disk x.dentry x.cursor buf = (.ENOERR, disk, dentry, cursor, l))
      (hrest : fillHole S fuel { x with disk, dentry, cursor } (buf.drop l.toNat)
        = some (err, x')) : FillTurn fuel x buf err x'

/-- The exits of one turn of the loop that fills a hole: done, failed, or a turn more. -/
theorem fillHole_turn {buf : List UInt8} (hr : fillHole S (fuel + 1) x buf = some (err, x')) :
    FillTurn S fuel x buf err x' := by
  simp only [fillHole] at hr
  split at hr
  · rename_i hnil
    obtain ⟨rfl, rfl⟩ := Prod.mk.inj (Option.some.inj hr)
    rw [hnil]
    exact .done
  rename_i hne
  split at hr
  · rename_i hwrite
    exact .next hne hwrite hr
  · rename_i herr hwrite
    obtain ⟨rfl, rfl⟩ := Prod.mk.inj (Option.some.inj hr)
    exact .fail hne hwrite herr

/-- The loop that fills the hole writes all of its zeros, unless it fails; `pos` does not
    move. -/
theorem fillHole_spec (L : CursorLaws S off) {buf : List UInt8}
    (hr : fillHole S fuel x buf = some (.ENOERR, x')) :
    off x'.cursor = off x.cursor + buf.length ∧ x'.dentry.size = x.dentry.size := by
  induction fuel generalizing x buf with
  | zero => cases hr
  | succ fuel ih =>
    cases fillHole_turn hr with
    | done => exact ⟨rfl, rfl⟩
    | fail hne hwrite herr => exact absurd rfl herr
    | next hne hwrite hrest =>
      obtain ⟨hmoved, hcount, hsize⟩ := L.writeData hwrite
      obtain ⟨hrest, hsize'⟩ := ih hrest
      refine ⟨?_, hsize'.trans hsize⟩
      rw [hrest, hmoved, List.length_drop]
      omega

variable (S) in
/-- How a turn of the loop that writes one vector goes, with `fuel` for the turns behind it. -/
inductive VecTurn (fuel : Nat) (err : Err) (x : Xfer Disk Pos) :
    List UInt8 → Flow → Xfer Disk Pos → Prop
  /-- Nothing is left to write. -/
  | done : VecTurn fuel err x [] (.next err) x
  /-- No space: the loop over this vector ends. -/
  | full {buf : List UInt8} {disk : Disk} {dentry : Dentry} {cursor : Pos} {l : BitVec 32}
      (hne : buf ≠ [])
      (hwrite : S.writeData x.disk x.dentry x.cursor buf = (.ENOSPC, disk, dentry, cursor, l)) :
      VecTurn fuel err x buf (.next .ENOSPC) ⟨disk, dentry, cursor, x.pos + l, x.resid - l⟩
  /-- Another error: the function returns. -/
  | fail {buf : List UInt8} {err₁ : Err} {disk : Disk} {dentry : Dentry} {cursor : Pos}
      {l : BitVec 32} (hne : buf ≠ [])
      (hwrite : S.writeData x.disk x.dentry x.cursor buf = (err₁, disk, dentry, cursor, l))
      (hspace : err₁ ≠ .ENOSPC) (herr : err₁ ≠ .ENOERR) :
      VecTurn fuel err x buf (.ret err₁) ⟨disk, dentry, cursor, x.pos + l, x.resid - l⟩
  /-- The loop goes on with the rest. -/
  | next {buf : List UInt8} {flow : Flow} {x' : Xfer Disk Pos} {disk : Disk} {dentry : Dentry}
      {cursor : Pos} {l : BitVec 32} (hne : buf ≠ [])
      (hwrite : S.writeData x.disk x.dentry x.cursor buf = (.ENOERR, disk, dentry, cursor, l))
      (hrest : writeVec S fuel .ENOERR ⟨disk, dentry, cursor, x.pos + l, x.resid - l⟩
        (buf.drop l.toNat) = some (flow, x')) : VecTurn fuel err x buf flow x'

/-- The exits of one turn of the loop over a vector: done, cut short, failed, or a turn more. -/
theorem writeVec_turn {flow : Flow} {buf : List UInt8}
    (hr : writeVec S (fuel + 1) err x buf = some (flow, x')) :
    VecTurn S fuel err x buf flow x' := by
  simp only [writeVec] at hr
  split at hr
  · rename_i hnil
    obtain ⟨rfl, rfl⟩ := Prod.mk.inj (Option.some.inj hr)
    rw [hnil]
    exact .done
  rename_i hne
  rcases hwrite : S.writeData x.disk x.dentry x.cursor buf with ⟨err₁, disk, dentry, cursor, l⟩
  simp only [hwrite] at hr
  split at hr
  · rename_i hspace
    obtain ⟨rfl, rfl⟩ := Prod.mk.inj (Option.some.inj hr)
    rw [hspace] at hwrite ⊢
    exact .full hne hwrite
  rename_i hspace
  split at hr
  · rename_i herr
    obtain ⟨rfl, rfl⟩ := Prod.mk.inj (Option.some.inj hr)
    exact .fail hne hwrite hspace herr
  · rename_i hok
    rw [Decidable.not_not.mp hok] at hwrite hr
    exact .next hne hwrite hr

/-- A call that takes `l` bytes, and what the loop makes of them. -/
theorem CursorLaws.advance (L : CursorLaws S off) {buf : List UInt8} {disk : Disk}
    {dentry : Dentry} {cursor : Pos} {l : BitVec 32}
    (hwrite : S.writeData x.disk x.dentry x.cursor buf = (err, disk, dentry, cursor, l)) :
    l.toNat ≤ buf.length ∧
      x.Advance off ⟨disk, dentry, cursor, x.pos + l, x.resid - l⟩ l.toNat := by
  obtain ⟨hmoved, hcount, hsize⟩ := L.writeData hwrite
  exact ⟨hcount, hmoved, by simp, by simp, hsize⟩

/-- The loop that writes one vector transfers some of its bytes, and moves position and cursor by
    these. -/
theorem writeVec_spec (L : CursorLaws S off) {err err' : Err} {buf : List UInt8}
    (hr : writeVec S fuel err x buf = some (.next err', x')) :
    ∃ t ≤ buf.length, x.Advance off x' t := by
  induction fuel generalizing x err buf with
  | zero => cases hr
  | succ fuel ih =>
    cases writeVec_turn hr with
    | done => exact ⟨0, Nat.zero_le _, .refl _⟩
    | full hne hwrite => exact ⟨_, L.advance hwrite⟩
    | next hne hwrite hrest =>
      obtain ⟨hcount, hfirst⟩ := L.advance hwrite
      obtain ⟨t, ht, hadvance⟩ := ih hrest
      refine ⟨_, ?_, hfirst.trans hadvance⟩
      rw [List.length_drop] at ht
      omega

/-- A vector that makes the function return does so with an error, so that a success has done all
    vectors. -/
theorem writeVec_ret {err err' : Err} {buf : List UInt8}
    (hr : writeVec S fuel err x buf = some (.ret err', x')) : err' ≠ .ENOERR := by
  induction fuel generalizing x err buf with
  | zero => cases hr
  | succ fuel ih =>
    cases writeVec_turn hr with
    | fail hne hwrite hspace herr => exact herr
    | next hne hwrite hrest => exact ih hrest

/-- The loop over the vectors makes the function return with an error only. -/
theorem writeVecs_ret {err err' : Err} {vs : List Iovec}
    (hr : writeVecs S fuel err x vs = some (.ret err', x')) : err' ≠ .ENOERR := by
  induction vs generalizing x err with
  | nil => simp [writeVecs] at hr
  | cons v vs ih =>
    simp only [writeVecs] at hr
    split at hr
    · cases hr
    · exact ih hr
    · rename_i hvec
      simp only [Option.some.injEq, Prod.mk.injEq, Flow.ret.injEq] at hr
      obtain ⟨rfl, -⟩ := hr
      exact writeVec_ret hvec

/-- The loop over the vectors transfers some of their bytes, and moves position and cursor by
    these. -/
theorem writeVecs_spec (L : CursorLaws S off) {err err' : Err} {vs : List Iovec}
    (hr : writeVecs S fuel err x vs = some (.next err', x')) :
    ∃ t ≤ (vs.flatMap Iovec.buf).length, x.Advance off x' t := by
  induction vs generalizing x err with
  | nil =>
    simp only [writeVecs, Option.some.injEq, Prod.mk.injEq] at hr
    obtain ⟨-, rfl⟩ := hr
    exact ⟨0, Nat.zero_le _, .refl x⟩
  | cons v vs ih =>
    simp only [writeVecs] at hr
    split at hr
    · cases hr
    · rename_i err₁ y hvec
      obtain ⟨t, ht, hfirst⟩ := writeVec_spec L hvec
      obtain ⟨t', ht', hrest⟩ := ih hr
      refine ⟨t + t', ?_, hfirst.trans hrest⟩
      rw [List.flatMap_cons, List.length_append]
      omega
    · simp at hr

/-! ### The operations on a descriptor -/

/-- Reading keeps the cursor with the offset, and does not move either beyond the end of the
    file. -/
theorem foRead_spec (L : CursorLaws S off) {uio : Uio} {bufs : List (List UInt8)}
    {resid : BitVec 32} (hc : h.Coherent off)
    (hr : foRead S fuel h uio = some (.ENOERR, h', bufs, resid)) :
    h'.Coherent off ∧ h'.dentry = h.dentry ∧ h'.append = h.append ∧
      (h'.offset = h.offset ∨ h'.offset ≤ h.dentry.size) := by
  simp only [foRead] at hr
  split at hr
  · cases hr
  · rename_i x bufs' hloop
    simp only [Option.some.injEq, Prod.mk.injEq] at hr
    obtain ⟨-, rfl, -, -⟩ := hr
    have hread := readVecs_spec L (x := h.xfer uio) hc hloop
    exact ⟨hread.coherent, hread.dentry, rfl, hread.pos⟩
  · rename_i hne _
    simp only [Option.some.injEq, Prod.mk.injEq] at hr
    exact absurd hr.1 hne

/-- Seeking places the cursor where it belongs, and the offset below `2 ^ 31`. -/
theorem foLseek_spec (L : PlaceLaws S off) {apos apos' : BitVec 32} {whence : Whence}
    (hr : foLseek S h apos whence = (.ENOERR, h', apos')) :
    h'.Coherent off ∧ h'.dentry = h.dentry ∧ h'.append = h.append ∧
      h'.offset.toNat < 2 ^ 31 := by
  simp only [foLseek] at hr
  split at hr
  · simp at hr
  rename_i pos hpos
  split at hr
  · simp at hr
  rename_i hneg
  split at hr
  · rename_i disk cursor hset
    simp only [Prod.mk.injEq] at hr
    obtain ⟨-, rfl, -⟩ := hr
    refine ⟨?_, rfl, rfl, ?_⟩
    · -- the target is the smaller one of the new position and the size
      show off cursor = min pos.toNat h.dentry.size.toNat
      by_cases hlt : h.dentry.size < pos
      · rw [if_pos hlt] at hset
        have hoff := L.setpos h.disk h.dentry h.pos _ (BitVec.le_refl h.dentry.size)
        rw [hset] at hoff
        rw [BitVec.lt_def] at hlt
        rw [hoff]
        omega
      · rw [if_neg hlt] at hset
        have hoff := L.setpos h.disk h.dentry h.pos pos (BitVec.not_lt.mp hlt)
        rw [hset] at hoff
        rw [BitVec.lt_def] at hlt
        rw [hoff]
        omega
    · show pos.toNat < 2 ^ 31
      simp only [BitVec.slt, BitVec.ofNat_eq_ofNat, BitVec.toInt_zero, decide_eq_true_eq,
        Int.not_lt] at hneg
      rw [BitVec.toInt_eq_toNat_cond] at hneg
      split at hneg <;> omega
  · rename_i hne _
    simp only [Prod.mk.injEq] at hr
    exact absurd hr.1 hne

/-- Where a write goes: to the end of the file in append mode, to the offset otherwise. -/
def Handle.start (h : Handle Disk Pos) : BitVec 32 :=
  if h.append then h.dentry.size else h.offset

/-- An offset beyond the end of the file is one that a seek can leave. -/
def Handle.Near (h : Handle Disk Pos) : Prop :=
  h.offset ≤ h.dentry.size ∨ h.offset.toNat < 2 ^ 31

/-- Going to the end of the file keeps the cursor coherent, and changes nothing else. -/
theorem toEnd_spec (L : PlaceLaws S off) (hc : h.Coherent off) :
    (h.toEnd S).Coherent off ∧ (h.toEnd S).offset = h.start ∧
      (h.toEnd S).dentry = h.dentry ∧ (h.toEnd S).append = h.append := by
  unfold Handle.toEnd Handle.start
  by_cases happ : h.append = true
  · have hset := L.setpos h.disk h.dentry h.pos _ (BitVec.le_refl h.dentry.size)
    simp only [happ, if_true]
    refine ⟨?_, trivial, trivial, trivial⟩
    show off _ = min h.dentry.size.toNat h.dentry.size.toNat
    rw [hset, Nat.min_self]
  · simp only [happ, Bool.false_eq_true, if_false]
    exact ⟨hc, trivial, trivial, trivial⟩

/-- The end of the file is not beyond it, so that an append has no hole to fill. -/
theorem start_near (hn : h.Near) : h.start ≤ h.dentry.size ∨ h.start.toNat < 2 ^ 31 := by
  unfold Handle.start
  split
  · exact Or.inl (BitVec.le_refl _)
  · exact hn

/-- An offset beyond the end of the file is below `2 ^ 31`. -/
theorem Handle.Near.far (hn : h.Near) (hlt : h.dentry.size < h.offset) :
    h.offset.toNat < 2 ^ 31 := by
  rw [BitVec.lt_def] at hlt
  rcases hn with hle | hfar
  · rw [BitVec.le_def] at hle
    omega
  · exact hfar

/-- The hole reaches from the end of the file to the offset, and is filled with zeros. -/
theorem hole_eq (hn : h.Near) (hlt : h.dentry.size < h.offset) :
    h.hole = List.replicate (h.offset.toNat - h.dentry.size.toNat) 0 := by
  have hfar := hn.far hlt
  rw [BitVec.lt_def] at hlt
  have hlen : (h.offset - h.dentry.size).toNat = h.offset.toNat - h.dentry.size.toNat :=
    BitVec.toNat_sub_of_le (by rw [BitVec.le_def]; omega)
  -- below `2 ^ 31` the length is not negative as an `off_t`
  have hpos : BitVec.slt 0 (h.offset - h.dentry.size) = true := by
    simp only [BitVec.slt, BitVec.ofNat_eq_ofNat, BitVec.toInt_zero, decide_eq_true_eq]
    rw [BitVec.toInt_eq_toNat_cond, hlen]
    split <;> omega
  simp only [Handle.hole, hpos, if_true, hlen]

/-- The length of the hole between the end of the file and the offset. -/
theorem hole_length (hn : h.Near) (hlt : h.dentry.size < h.offset) :
    h.hole.length = h.offset.toNat - h.dentry.size.toNat := by
  rw [hole_eq hn hlt, List.length_replicate]

/-- What a write of `t` bytes at `p` does to the descriptor: offset, size and cursor. -/
structure Handle.Wrote (off : Pos → Nat) (h h' : Handle Disk Pos) (p t : Nat) : Prop where
  coherent : h'.Coherent off
  offset : h'.offset.toNat = p + t
  size : h'.dentry.size.toNat = max h.dentry.size.toNat (p + t)
  append : h'.append = h.append

/-- The loop over the vectors and what follows it, when the cursor is at the offset. -/
theorem writeData_spec (L : CursorLaws S off) {uio : Uio} {resid : BitVec 32}
    (hat : off h.pos = h.offset.toNat) (hfit : h.offset.toNat + uio.data.length < 2 ^ 32)
    (hw : writeData S fuel h uio = some (.ENOERR, h', resid)) :
    ∃ t ≤ uio.data.length, h.Wrote off h' h.offset.toNat t ∧
      resid = uio.resid - BitVec.ofNat 32 t := by
  simp only [writeData] at hw
  split at hw
  · cases hw
  · -- a return from within the loop is not a success
    rename_i err y hloop
    exfalso
    simp only [Option.some.injEq, Prod.mk.injEq] at hw
    exact writeVecs_ret hloop hw.1
  · rename_i y hloop
    obtain ⟨t, ht, hadv⟩ := writeVecs_spec L hloop
    simp only [Option.some.injEq, Prod.mk.injEq] at hw
    obtain ⟨-, rfl, rfl⟩ := hw
    have hpos : y.pos.toNat = h.offset.toNat + t := by
      have hle : t ≤ uio.data.length := ht
      rw [hadv.pos, BitVec.toNat_add, BitVec.toNat_ofNat]
      show (h.offset.toNat + t % 2 ^ 32) % 2 ^ 32 = _
      omega
    have hsize : (if y.dentry.size < y.pos then y.pos else y.dentry.size).toNat
        = max h.dentry.size.toNat (h.offset.toNat + t) := by
      have heq : y.dentry.size.toNat = h.dentry.size.toNat := congrArg BitVec.toNat hadv.size
      split
      · rename_i hlt
        rw [BitVec.lt_def] at hlt
        omega
      · rename_i hnot
        rw [BitVec.lt_def] at hnot
        omega
    refine ⟨t, ht, ⟨?_, hpos, hsize, rfl⟩, hadv.resid⟩
    show off y.cursor
      = min y.pos.toNat (if y.dentry.size < y.pos then y.pos else y.dentry.size).toNat
    rw [hsize, hadv.cursor, hpos]
    have hcur : off (h.xfer uio).cursor = h.offset.toNat := hat
    omega

/-- Writing at the offset: a hole before it is filled first, and the cursor ends behind what was
    written. -/
theorem writeAtOffset_spec (L : CursorLaws S off) {uio : Uio} {mem : Bool} {resid : BitVec 32}
    (hc : h.Coherent off) (hn : h.Near) (hfit : h.offset.toNat + uio.data.length < 2 ^ 32)
    (hw : writeAtOffset S fuel mem h uio = some (.ENOERR, h', resid)) :
    ∃ t ≤ uio.data.length, h.Wrote off h' h.offset.toNat t ∧
      resid = uio.resid - BitVec.ofNat 32 t := by
  unfold writeAtOffset at hw
  split at hw
  · -- a hole: the cursor is at the end of the file, and the zeros bring it to the offset
    rename_i hlt
    split at hw
    · split at hw
      · cases hw
      · rename_i y hfill
        obtain ⟨hcur, hsize⟩ := fillHole_spec L hfill
        rw [hole_eq hn hlt, List.length_replicate] at hcur
        have hat : off y.cursor = h.offset.toNat := by
          have hstart : off (h.xfer uio).cursor = min h.offset.toNat h.dentry.size.toNat := hc
          rw [BitVec.lt_def] at hlt
          omega
        have hcopy : (h.partialXfer y).dentry.size = h.dentry.size := hsize
        obtain ⟨t, ht, hwrote, hres⟩ := writeData_spec L (h := h.partialXfer y) hat hfit hw
        refine ⟨t, ht, ⟨hwrote.coherent, hwrote.offset, ?_, hwrote.append⟩, hres⟩
        rw [hwrote.size, hcopy]
        rfl
      · rename_i hne _
        simp only [Option.some.injEq, Prod.mk.injEq] at hw
        exact absurd hw.1 hne
    · simp at hw
  · -- no hole: the cursor is at the offset
    rename_i hnot
    apply writeData_spec L ?_ hfit hw
    rw [BitVec.lt_def] at hnot
    rw [hc]
    omega

/-- **Writing.**  A successful write goes to the offset, or to the end of the file in append
    mode, fills the hole before it, and keeps the cursor with the offset. -/
theorem foWrite_spec (L : CursorLaws S off) {uio : Uio} {mem : Bool} {resid : BitVec 32}
    (hc : h.Coherent off) (hn : h.Near) (hfit : h.start.toNat + uio.data.length < 2 ^ 32)
    (hw : foWrite S fuel mem h uio = some (.ENOERR, h', resid)) :
    ∃ t ≤ uio.data.length, h.Wrote off h' h.start.toNat t ∧
      resid = uio.resid - BitVec.ofNat 32 t := by
  obtain ⟨hc₁, hoff, hdentry, happ⟩ := toEnd_spec L.toPlaceLaws hc
  have hn₁ : (h.toEnd S).Near := by
    rw [Handle.Near, hoff, hdentry]
    exact start_near hn
  rw [← hoff] at hfit ⊢
  obtain ⟨t, ht, hwrote, hres⟩ := writeAtOffset_spec L hc₁ hn₁ hfit hw
  exact ⟨t, ht, ⟨hwrote.coherent, hwrote.offset, by rw [hwrote.size, hdentry],
    hwrote.append.trans happ⟩, hres⟩

/-! ### Opening a file -/

variable {s s' : FatState Disk Pos} {o : OpenArgs Disk} {n : Nat}

/-- The node that an open works on, when it found or created one. -/
def OpenArgs.found (o : OpenArgs Disk) : Option Found :=
  match o.find with
  | .found f => some f
  | .missing _ => o.create.getRight?
  | .failed _ => none

/-- A successful `fatfs_open` found or created a node, and went on with it. -/
theorem fatfsOpen_cases (ho : fatfsOpen S s o = (.ENOERR, s')) :
    ∃ found, o.found = some found ∧
      openNode S (({ s with disk := o.disk } : FatState Disk Pos).load found) o found.node
        = (.ENOERR, s') := by
  simp only [fatfsOpen] at ho
  split at ho
  · rename_i found hfind
    split at ho
    · simp at ho
    · exact ⟨found, by simp [OpenArgs.found, hfind], ho⟩
  · rename_i last hfind
    split at ho
    · split at ho
      · rename_i err _
        exact absurd (Prod.mk.inj ho).1 err.2
      · rename_i found hcreate
        exact ⟨found, by simp [OpenArgs.found, hfind, hcreate], ho⟩
    · simp at ho
  · rename_i err _
    exact absurd (Prod.mk.inj ho).1 err.2

/-- A successful open of a node ends in `alloc_fatfs_fd`, after the truncation if there was one. -/
theorem openNode_cases (ho : openNode S s o n = (.ENOERR, s')) :
    allocFile S (if o.mode.trunc then s.trunc S n else s) o n = (.ENOERR, s') := by
  simp only [openNode] at ho
  generalize (if o.mode.trunc = true then s.trunc S n else s) = s₁ at ho ⊢
  split at ho
  · simp at ho
  split at ho
  · simp at ho
  · exact ho

/-- The file that `alloc_fatfs_fd` and what follows it set up: at the start, or at the end when
    appending. -/
def OpenArgs.newFile (o : OpenArgs Disk) (size : BitVec 32) (d : Nat) : CygFile :=
  ⟨o.mode.append, if o.mode.append then size else 0, d⟩

/-- The new descriptor comes from the pool, and its cursor is at the offset of the file. -/
theorem allocFile_cases (L : PlaceLaws S off) (ho : allocFile S s o n = (.ENOERR, s')) :
    ∃ d pool disk pos, s.pool = d :: pool ∧
      off pos = (o.newFile (s.node n).size d).offset.toNat ∧
      s' = { s with
        disk
        pool
        fd := Function.update s.fd d ⟨n, pos⟩
        file := Function.update s.file o.file (some (o.newFile (s.node n).size d)) } := by
  unfold allocFile at ho
  split at ho
  · simp at ho
  rename_i d pool hpool
  have hcursor : ∃ disk pos, (if o.mode.append = true then
        (S.setpos s.disk (s.node n) (S.initpos s.disk (s.node n)) (s.node n).size).2
        else (s.disk, S.initpos s.disk (s.node n))) = (disk, pos) ∧
      off pos = (o.newFile (s.node n).size d).offset.toNat := by
    unfold OpenArgs.newFile
    by_cases happ : o.mode.append = true
    · simp only [happ, if_true]
      exact ⟨_, _, rfl, L.setpos _ _ _ _ (BitVec.le_refl _)⟩
    · simp only [happ, Bool.false_eq_true, if_false]
      exact ⟨_, _, rfl, L.initpos _ _⟩
  obtain ⟨disk, pos, hpos, hoff⟩ := hcursor
  simp only [hpos, Prod.mk.injEq, true_and] at ho
  exact ⟨d, pool, disk, pos, hpool, hoff, ho.symm⟩

/-- The offset of a new file is not beyond its end, so that it starts without a hole. -/
theorem newFile_offset_le (o : OpenArgs Disk) (size : BitVec 32) (d : Nat) :
    (o.newFile size d).offset ≤ size := by
  unfold OpenArgs.newFile
  dsimp only
  split
  · exact BitVec.le_refl _
  · simp [BitVec.le_def]

/-! ### An instance -/

/-- A disk in memory, by first cluster and offset, whose transfers end at multiples of four.
    Truncation leaves the bytes where they are. -/
def memSupport : FatSupport (BitVec 32 → Nat → UInt8) Nat where
  initpos _ _ := 0
  setpos d _ _ n := (.ENOERR, d, n.toNat)
  readData d e p l :=
    let n := min l.toNat (4 - p % 4)
    (.ENOERR, d, p + n, slice (d e.cluster) p n)
  writeData d e p buf :=
    let n := min buf.length (4 - p % 4)
    (.ENOERR, Function.update d e.cluster (overwrite (d e.cluster) p (buf.take n)), e, p + n,
      BitVec.ofNat 32 n)
  truncFile d e := (d, { e with size := 0 })

/-- The files in memory obey the laws, so that what is assumed of the support code can be met. -/
theorem memSupport_cursorLaws : CursorLaws memSupport id := by
  refine ⟨⟨fun d e => rfl, fun d e p n _ => rfl⟩, ?_, ?_, fun d e => rfl⟩
  · intro d e p l err d' p' buf hr
    simp only [memSupport, Prod.mk.injEq] at hr
    obtain ⟨-, -, rfl, rfl⟩ := hr
    rw [length_slice]
    exact ⟨rfl, Nat.min_le_left _ _⟩
  · intro d e p buf err d' e' p' l hw
    simp only [memSupport, Prod.mk.injEq] at hw
    obtain ⟨-, -, rfl, rfl, rfl⟩ := hw
    have hsmall : min buf.length (4 - p % 4) < 2 ^ 32 := by omega
    simp only [BitVec.toNat_ofNat, Nat.mod_eq_of_lt hsmall, id]
    exact ⟨trivial, by omega, trivial⟩

/-- A disk with one file of the given size, at node 0; its clusters are full of old bytes. -/
def oneFile (size : BitVec 32) : FatState (BitVec 32 → Nat → UInt8) Nat where
  disk := fun _ _ => 7
  node := fun _ => ⟨size, false, false, 2⟩
  fd := fun _ => ⟨0, 0⟩
  pool := [0, 1]
  file := fun _ => none

/-- The file is opened in entry `i`, neither created nor truncated. -/
def openArgs (i : Nat) : OpenArgs (BitVec 32 → Nat → UInt8) where
  file := i
  mode := ⟨false, false, false, false, true⟩
  find := .found ⟨0, none⟩
  create := .inr ⟨0, none⟩
  disk := fun _ _ => 7
  useAttributes := false

end Ecos.Fat
