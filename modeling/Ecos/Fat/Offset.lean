import Ecos.Fat.DiskFull

namespace Ecos.Fat

open Ecos.Lib

/-!
# The arithmetic of offsets

`off_t` is a signed 32-bit integer, the size of a file and the working position of
`fatfs_fo_write` are unsigned ones.

* `SeekExact`, `WriteExact` — a seek and a write compute with offsets as with integers;
* `offset_arithmetic` — seeks do so unless the sum of `SEEK_END` exceeds 32 bits, and writes do so
  as long as they end below `2 ^ 31`.

The test of `fatfs_fo_write` for a negative position is made on an unsigned variable.  These
results need no law of the support code.
-/

variable {Disk Pos : Type} (S : FatSupport Disk Pos)

/-! ### Seeking -/

/-- What the displacement is added to, as an integer and not as 32 bits. -/
def Handle.base (h : Handle Disk Pos) : Whence → Option Int
  | .SEEK_SET => some 0
  | .SEEK_CUR => some h.offset.toInt
  | .SEEK_END => some h.dentry.size.toNat
  | .other => none

/-- Where the disk cursor is placed for a new position: there, or at the end of the file when it is
    beyond. -/
def Handle.target (h : Handle Disk Pos) (pos : BitVec 32) : BitVec 32 :=
  if h.dentry.size < pos then h.dentry.size else pos

/-- Does `fatfs_setpos` succeed for a new position? Only then the offset is stored. -/
def Handle.places (h : Handle Disk Pos) (pos : BitVec 32) : Prop :=
  (S.setpos h.disk h.dentry h.pos (h.target pos)).1 = .ENOERR

/-- A seek with an exact result: the sum of base and displacement, or an error that leaves the
    offset alone; and it succeeds when the sum is an offset and the cursor can be placed. -/
structure SeekExact (h : Handle Disk Pos) (apos : BitVec 32) (whence : Whence) : Prop where
  sum : (foLseek S h apos whence).1 = .ENOERR → ∃ b, h.base whence = some b ∧
    (foLseek S h apos whence).2.1.offset.toInt = b + apos.toInt ∧
    (foLseek S h apos whence).2.2.toInt = b + apos.toInt
  failed : (foLseek S h apos whence).1 ≠ .ENOERR →
    (foLseek S h apos whence).2.1.offset = h.offset ∧ (foLseek S h apos whence).2.2 = apos
  succeeds : ∀ b, h.base whence = some b → 0 ≤ b + apos.toInt → b + apos.toInt < 2 ^ 31 →
    h.places S (BitVec.ofInt 32 (b + apos.toInt)) → (foLseek S h apos whence).1 = .ENOERR

/-- The sum of the size and the displacement exceeds 32 bits, and the cursor can be placed where
    the rest of the sum points to. -/
def Handle.SumWraps (h : Handle Disk Pos) (apos : BitVec 32) (whence : Whence) : Prop :=
  whence = .SEEK_END ∧ 2 ^ 32 ≤ apos.toInt + h.dentry.size.toNat ∧
    h.places S (apos + h.dentry.size)

variable {S} {h h' g : Handle Disk Pos} {x x' : Xfer Disk Pos} {fuel : Nat} {err : Err}

/-- The sign of an `off_t`, read off its value without sign. -/
theorem slt_zero_iff {p : BitVec 32} : BitVec.slt p 0 = true ↔ 2 ^ 31 ≤ p.toNat := by
  simp only [BitVec.slt, BitVec.ofNat_eq_ofNat, BitVec.toInt_zero, decide_eq_true_eq]
  rw [BitVec.toInt_eq_toNat_cond]
  have hp := p.isLt
  split <;> omega

/-- A position that is not negative is its own value. -/
theorem toInt_of_lt {p : BitVec 32} (hp : p.toNat < 2 ^ 31) : p.toInt = p.toNat := by
  rw [BitVec.toInt_eq_toNat_cond]
  split <;> omega

/-- A position is not negative when its upper bit is clear. -/
theorem toInt_nonneg_iff {p : BitVec 32} : 0 ≤ p.toInt ↔ p.toNat < 2 ^ 31 := by
  have hp := p.isLt
  rw [BitVec.toInt_eq_toNat_cond]
  split <;> omega

/-- The ways of a seek to a position: negative and refused, not placed, or stored. -/
theorem foLseek_cases {apos pos : BitVec 32} {whence : Whence}
    (hto : h.seekTo apos whence = some pos) :
    (2 ^ 31 ≤ pos.toNat ∧ foLseek S h apos whence = (.EINVAL, h, apos)) ∨
    (pos.toNat < 2 ^ 31 ∧ h.places S pos ∧ (foLseek S h apos whence).1 = .ENOERR ∧
      (foLseek S h apos whence).2.1.offset = pos ∧ (foLseek S h apos whence).2.2 = pos) ∨
    (pos.toNat < 2 ^ 31 ∧ ¬h.places S pos ∧ (foLseek S h apos whence).1 ≠ .ENOERR ∧
      (foLseek S h apos whence).2.1.offset = h.offset ∧
      (foLseek S h apos whence).2.2 = apos) := by
  unfold foLseek Handle.places Handle.target
  simp only [hto]
  by_cases hneg : BitVec.slt pos 0 = true
  · rw [if_pos hneg]
    exact Or.inl ⟨slt_zero_iff.mp hneg, rfl⟩
  rw [if_neg hneg]
  have hlt : pos.toNat < 2 ^ 31 := by
    rw [slt_zero_iff] at hneg
    omega
  rcases hset : S.setpos h.disk h.dentry h.pos (if h.dentry.size < pos then h.dentry.size else pos)
    with ⟨err, disk, cursor⟩
  by_cases hok : err = .ENOERR
  · subst hok
    exact Or.inr (Or.inl ⟨hlt, rfl, rfl, rfl, rfl⟩)
  · refine Or.inr (Or.inr ⟨hlt, hok, ?_⟩)
    cases err <;> first | exact absurd rfl hok | exact ⟨nofun, rfl, rfl⟩

/-- A seek whose sum fits is exact: the 32 bits are the integer. -/
theorem seekExact_of_fits {apos pos : BitVec 32} {whence : Whence} {b : Int}
    (hto : h.seekTo apos whence = some pos) (hb : h.base whence = some b)
    (hpos : pos = BitVec.ofInt 32 (b + apos.toInt))
    (hfit : pos.toNat < 2 ^ 31 → (pos.toNat : Int) = b + apos.toInt) :
    SeekExact S h apos whence := by
  rcases foLseek_cases (S := S) hto with ⟨hneg, hres⟩ | ⟨hlt, -, hok, hoff, hapos⟩
    | ⟨hlt, hplace, hbad, hoff, hapos⟩
  · rw [hpos, BitVec.toNat_ofInt] at hneg
    refine ⟨?_, ?_, ?_⟩
    · rw [hres]
      exact nofun
    · rw [hres]
      exact fun _ => ⟨rfl, rfl⟩
    · intro b' hb' hge hle _
      obtain rfl := Option.some.inj (hb.symm.trans hb')
      omega
  · refine ⟨fun _ => ⟨b, hb, ?_, ?_⟩, fun hne => absurd hok hne, fun _ _ _ _ _ => hok⟩
    · rw [hoff, toInt_of_lt hlt, hfit hlt]
    · rw [hapos, toInt_of_lt hlt, hfit hlt]
  · refine ⟨fun hok => absurd hok hbad, fun _ => ⟨hoff, hapos⟩, fun b' hb' _ _ hplace' => ?_⟩
    obtain rfl := Option.some.inj (hb.symm.trans hb')
    rw [← hpos] at hplace'
    exact absurd hplace' hplace

/-- **Seeks are exact** unless the sum of `SEEK_END` exceeds 32 bits, the one that is not tested. -/
theorem seekExact_iff (hoff : 0 ≤ h.offset.toInt) (apos : BitVec 32) (whence : Whence) :
    SeekExact S h apos whence ↔ ¬h.SumWraps S apos whence := by
  have hoff' := toInt_nonneg_iff.mp hoff
  have hsum : ∀ b : BitVec 32, ∀ z : Int, BitVec.ofInt 32 z = b →
      apos + b = BitVec.ofInt 32 (z + apos.toInt) := by
    rintro b z rfl
    rw [BitVec.ofInt_add, BitVec.ofInt_toInt, BitVec.add_comm]
  have hapos := apos.isLt
  cases whence with
  | SEEK_SET =>
    refine iff_of_true ?_ (fun hw => nomatch hw.1)
    apply seekExact_of_fits (b := 0) (show h.seekTo apos .SEEK_SET = some apos from rfl) rfl
    · rw [Int.zero_add, BitVec.ofInt_toInt]
    · intro hlt
      rw [toInt_of_lt hlt, Int.zero_add]
  | SEEK_CUR =>
    refine iff_of_true ?_ (fun hw => nomatch hw.1)
    apply seekExact_of_fits (show h.seekTo apos .SEEK_CUR = some (apos + h.offset) from rfl) rfl
      (hsum _ _ (BitVec.ofInt_toInt))
    intro hlt
    rw [BitVec.toNat_add] at hlt ⊢
    rw [toInt_of_lt hoff', BitVec.toInt_eq_toNat_cond]
    split <;> omega
  | SEEK_END =>
    have hsize := h.dentry.size.isLt
    have hpos : apos + h.dentry.size
        = BitVec.ofInt 32 ((h.dentry.size.toNat : Int) + apos.toInt) := by
      apply hsum
      rw [BitVec.ofInt_natCast, BitVec.ofNat_toNat, BitVec.setWidth_eq]
    by_cases hwrap : 2 ^ 32 ≤ apos.toInt + h.dentry.size.toNat
    · -- the sum is taken modulo `2 ^ 32`
      have hlow : (apos + h.dentry.size).toNat < 2 ^ 31 ∧
          ((apos + h.dentry.size).toNat : Int) ≠ h.dentry.size.toNat + apos.toInt := by
        rw [BitVec.toNat_add]
        rw [BitVec.toInt_eq_toNat_cond] at hwrap ⊢
        split at hwrap <;> constructor <;> omega
      rcases foLseek_cases (S := S)
        (show h.seekTo apos .SEEK_END = some (apos + h.dentry.size) from rfl) with
        ⟨hneg, -⟩ | ⟨hlt, hplace, hok, hnew, -⟩ | ⟨hlt, hplace, hbad, hkeep, hsame⟩
      · omega
      · refine iff_of_false (fun hexact => ?_) (fun hno => hno ⟨rfl, hwrap, hplace⟩)
        obtain ⟨b, hb, hval, -⟩ := hexact.sum hok
        obtain rfl := Option.some.inj hb
        rw [hnew, toInt_of_lt hlt] at hval
        exact hlow.2 hval
      · refine iff_of_true ⟨fun hok => absurd hok hbad, fun _ => ⟨hkeep, hsame⟩, ?_⟩
          (fun hw => hplace hw.2.2)
        intro b hb hge hle _
        obtain rfl := Option.some.inj hb
        omega
    · refine iff_of_true ?_ (fun hw => hwrap hw.2.1)
      apply seekExact_of_fits rfl rfl hpos
      intro hlt
      rw [BitVec.toNat_add] at hlt ⊢
      rw [BitVec.toInt_eq_toNat_cond] at hwrap ⊢
      split <;> rename_i hcond <;> simp only [hcond, if_true, if_false] at hwrap <;> omega
  | other =>
    exact iff_of_true ⟨nofun, fun _ => ⟨rfl, rfl⟩, nofun⟩ (fun hw => nomatch hw.1)

/-! ### Writing -/

/-- The result that a loop over the vectors leaves in `err`, whichever way it ended. -/
def Flow.result : Flow → Err
  | .next err => err
  | .ret err => err

/-- The loop that writes one vector is left with the error of its last call. -/
theorem writeVec_err {flow : Flow} {buf : List UInt8}
    (hr : writeVec S fuel err x buf = some (flow, x')) :
    flow.result = lastErr err (S.answers fuel x.place buf).1 := by
  induction fuel generalizing x err buf with
  | zero => cases hr
  | succ fuel ih =>
    cases writeVec_turn hr with
    | done => rfl
    | full hne hwrite =>
      rw [answers_fail (w := x.place) hne hwrite nofun]
      rfl
    | fail hne hwrite hspace herr =>
      rw [answers_fail (w := x.place) hne hwrite herr]
      rfl
    | next hne hwrite hrest =>
      rw [answers_next (w := x.place) hne hwrite, lastErr_cons]
      exact ih hrest

/-- The loop over the vectors is left with the error of its last call. -/
theorem writeVecs_err {flow : Flow} {vs : List Iovec}
    (hr : writeVecs S fuel err x vs = some (flow, x')) :
    flow.result = lastErr err (S.vecAnswers fuel x.place vs) := by
  induction vs generalizing x err with
  | nil =>
    simp only [writeVecs, Option.some.injEq, Prod.mk.injEq] at hr
    obtain ⟨rfl, rfl⟩ := hr
    rfl
  | cons v vs ih =>
    simp only [writeVecs] at hr
    split at hr
    · cases hr
    · -- the loop goes on with the next vector
      rename_i err₁ y hvec
      obtain ⟨hplace, -, hgo⟩ := writeVec_answers hvec
      have herr : err₁ = lastErr err (S.answers fuel x.place v.buf).1 := writeVec_err hvec
      rw [vecAnswers_next vs hgo, hplace, lastErr_append, ← herr]
      exact ih hr
    · -- the function returns
      rename_i err₁ y hvec
      obtain ⟨-, -, hflow⟩ := writeVec_answers hvec
      obtain ⟨rfl, rfl⟩ := Prod.mk.inj (Option.some.inj hr)
      rw [vecAnswers_stop vs hflow.1]
      exact writeVec_err hvec

/-- The loop that fills the hole is left with the error of its last call. -/
theorem fillHole_err {buf : List UInt8} (hr : fillHole S fuel x buf = some (err, x')) :
    err = lastErr .ENOERR (S.answers fuel x.place buf).1 := by
  induction fuel generalizing x buf with
  | zero => cases hr
  | succ fuel ih =>
    cases fillHole_turn hr with
    | done => rfl
    | fail hne hwrite herr =>
      rw [answers_fail (w := x.place) hne hwrite herr]
      rfl
    | next hne hwrite hrest =>
      rw [answers_next (w := x.place) hne hwrite, lastErr_cons]
      exact ih hrest

variable (S) in
/-- Does the write come to its end, where the offset is stored? A failing call of the support code
    ends it before. -/
def Handle.ends (fuel : Nat) (g : Handle Disk Pos) (uio : Uio) : Prop :=
  (g.holeAnswers S fuel).1.all Answer.isOk = true ∧
    (g.dataAnswers S fuel uio).all Answer.goesOn = true

variable (S) in
/-- The request is refused before any byte is written: there is no memory for the zeros of a hole,
    or no byte was taken when the last call failed. -/
def Handle.refuses (fuel : Nat) (mem : Bool) (g : Handle Disk Pos) (uio : Uio) : Prop :=
  (g.gap = true ∧ mem = false) ∨
    (total (g.calls S fuel mem uio) = 0 ∧ lastErr .ENOERR (g.calls S fuel mem uio) ≠ .ENOERR)

variable (S) in
/-- A write with exact arithmetic, from the handle `g` at the offset: the hole has the length of
    the gap; and the request is refused before any byte is written, or `pos` does not wrap around,
    and the offset is not negative, and is the end of what was written when it was stored.  A write
    that an error cuts short behind bytes that were taken stores no offset: it counts as exact when
    `pos` does not wrap around and the offset that it keeps is not negative. -/
structure WriteExact (fuel : Nat) (mem : Bool) (g h' : Handle Disk Pos) (uio : Uio) (err : Err) :
    Prop where
  hole : g.gap = true → 0 < g.hole.length ∧
    (g.hole.length : Int) = g.offset.toInt - g.dentry.size.toNat
  rest : (err ≠ .ENOERR ∧ total (g.calls S fuel mem uio) = 0) ∨
    ((∀ k, g.offset.toNat + total ((g.dataAnswers S fuel uio).take k) < 2 ^ 32) ∧
      0 ≤ h'.offset.toInt ∧
      (g.ends S fuel uio →
        h'.offset.toInt = g.offset.toNat + total (g.dataAnswers S fuel uio)))

variable (S) in
/-- The write is refused, or it ends below `2 ^ 31`; where it is cut short by an error, it starts
    below `2 ^ 31` and does not go beyond `2 ^ 32`. -/
def Handle.Fits (fuel : Nat) (mem : Bool) (g : Handle Disk Pos) (uio : Uio) : Prop :=
  g.refuses S fuel mem uio ∨
    (g.ends S fuel uio →
      g.offset.toNat + total (g.dataAnswers S fuel uio) < 2 ^ 31) ∧
    (¬g.ends S fuel uio → g.offset.toNat < 2 ^ 31 ∧
      g.offset.toNat + total (g.dataAnswers S fuel uio) < 2 ^ 32)

/-- The offset and the result of a write, in terms of the calls of the support code. -/
structure WriteResult (S : FatSupport Disk Pos) (fuel : Nat) (mem : Bool) (g h' : Handle Disk Pos)
    (uio : Uio) (err : Err) : Prop where
  result : ¬(g.gap = true ∧ mem = false) → err = lastErr .ENOERR (g.calls S fuel mem uio)
  noMemory : g.gap = true ∧ mem = false → err = .EINVAL ∧ g.calls S fuel mem uio = []
  ends : ¬(g.gap = true ∧ mem = false) → g.ends S fuel uio →
    h'.offset = g.offset + BitVec.ofNat 32 (total (g.dataAnswers S fuel uio))
  stays : ¬g.ends S fuel uio → h'.offset = g.offset

/-- What the loop over the vectors does, when the hole has been filled with the given answers. -/
theorem writeData_result {uio : Uio} {resid : BitVec 32} {f : Handle Disk Pos} {mem : Bool}
    (hmem : ¬(g.gap = true ∧ mem = false)) (hoff : f.offset = g.offset)
    (hok : (g.holeAnswers S fuel).1.all Answer.isOk = true)
    (hplace : (g.holeAnswers S fuel).2 = f.place)
    (hw : writeData S fuel f uio = some (err, h', resid)) :
    WriteResult S fuel mem g h' uio err := by
  have hdata : g.dataAnswers S fuel uio = S.vecAnswers fuel f.place uio.iov := by
    simp only [Handle.dataAnswers, hok, if_true, hplace]
  have hcalls : g.calls S fuel mem uio
      = (g.holeAnswers S fuel).1 ++ S.vecAnswers fuel f.place uio.iov := by
    simp only [Handle.calls, hmem, if_false, hdata]
  have herr : ∀ flow y, writeVecs S fuel .ENOERR (f.xfer uio) uio.iov = some (flow, y) →
      flow.result = lastErr .ENOERR (g.calls S fuel mem uio) := by
    intro flow y hloop
    rw [hcalls, lastErr_append, lastErr_of_ok hok]
    exact writeVecs_err hloop
  simp only [writeData] at hw
  split at hw
  · cases hw
  · -- an early return
    rename_i err₁ y hloop
    simp only [Option.some.injEq, Prod.mk.injEq] at hw
    obtain ⟨rfl, rfl, -⟩ := hw
    have hflow : (S.vecAnswers fuel f.place uio.iov).all Answer.goesOn = false :=
      (writeVecs_flow hloop).2.1
    refine ⟨fun _ => herr _ _ hloop, fun h => absurd h hmem, fun _ hends => ?_, fun _ => hoff⟩
    have hgo := hends.2
    rw [hdata, hflow] at hgo
    cases hgo
  · rename_i err₁ y hloop
    simp only [Option.some.injEq, Prod.mk.injEq] at hw
    obtain ⟨rfl, rfl, -⟩ := hw
    obtain ⟨hpos, hflow⟩ := writeVecs_flow hloop
    refine ⟨fun _ => herr _ _ hloop, fun h => absurd h hmem, fun _ _ => ?_, fun hnot => ?_⟩
    · rw [hdata, ← hoff]
      exact hpos
    · have hgo : (g.dataAnswers S fuel uio).all Answer.goesOn = true := by
        rw [hdata]
        exact hflow
      exact absurd ⟨hok, hgo⟩ hnot

/-- A write that returns has stored the offset that its calls lead to, or has stored none. -/
theorem writeAtOffset_result {uio : Uio} {resid : BitVec 32} {mem : Bool}
    (hw : writeAtOffset S fuel mem g uio = some (err, h', resid)) :
    WriteResult S fuel mem g h' uio err := by
  unfold writeAtOffset at hw
  by_cases hlt : g.dentry.size < g.offset
  · have hgap : g.gap = true := decide_eq_true hlt
    have hans := holeAnswers_of_gap S fuel hlt
    rw [if_pos hlt] at hw
    cases hmem : mem with
    | false =>
      simp only [hmem, Bool.false_eq_true, if_false, Option.some.injEq, Prod.mk.injEq] at hw
      obtain ⟨rfl, rfl, -⟩ := hw
      refine ⟨fun hno => absurd ⟨hgap, rfl⟩ hno, fun _ => ⟨rfl, ?_⟩,
        fun hno => absurd ⟨hgap, rfl⟩ hno, fun _ => rfl⟩
      simp [Handle.calls, hgap]
    | true =>
      simp only [hmem, if_true] at hw
      have hno : ¬(g.gap = true ∧ true = false) := by simp
      split at hw
      · cases hw
      · rename_i y hfill
        obtain ⟨hplace, -, hall⟩ := fillHole_answers hfill
        apply writeData_result (f := g.partialXfer y) hno rfl _ _ hw
        · rw [hans]
          exact hall.mp rfl
        · rw [hans]
          exact hplace
      · -- the hole is not filled: the function returns
        rename_i err₁ y hne hfill
        simp only [Option.some.injEq, Prod.mk.injEq] at hw
        obtain ⟨rfl, rfl, -⟩ := hw
        obtain ⟨-, -, hall⟩ := fillHole_answers hfill
        have hbad : (g.holeAnswers S fuel).1.all Answer.isOk = false := by
          rw [hans, ← Bool.not_eq_true]
          exact fun hok => hne (hall.mpr hok)
        have hnone : g.dataAnswers S fuel uio = [] := by
          simp only [Handle.dataAnswers, hbad, Bool.false_eq_true, if_false]
        refine ⟨fun _ => ?_, fun h => absurd h hno, fun _ hends => ?_, fun _ => rfl⟩
        · simp only [Handle.calls, hno, if_false, hnone, List.append_nil, hans]
          exact fillHole_err hfill
        · have hok := hends.1
          rw [hbad] at hok
          cases hok
  · have hgap : g.gap = false := decide_eq_false hlt
    have hans : g.holeAnswers S fuel = ([], g.place) := by
      simp only [Handle.holeAnswers, hgap, Bool.false_eq_true, if_false]
    rw [if_neg hlt] at hw
    apply writeData_result (by simp [hgap]) rfl _ _ hw
    · rw [hans]
      rfl
    · rw [hans]

/-- The first calls transfer no more than all of them. -/
theorem total_take_le (as : List Answer) (k : Nat) : total (as.take k) ≤ total as := by
  have hsplit := congrArg total (List.take_append_drop k as)
  rw [total_append] at hsplit
  omega

/-- **Writes are exact** when they end below `2 ^ 31`, and only then. -/
theorem writeExact_iff {uio : Uio} {mem : Bool} {resid : BitVec 32}
    (hn : g.gap = true → g.offset.toNat < 2 ^ 31)
    (hw : writeAtOffset S fuel mem g uio = some (err, h', resid)) :
    WriteExact S fuel mem g h' uio err ↔ g.Fits S fuel mem uio := by
  have hres := writeAtOffset_result hw
  have hhole : g.gap = true → 0 < g.hole.length ∧
      (g.hole.length : Int) = g.offset.toInt - g.dentry.size.toNat := by
    intro hgap
    have hlt : g.dentry.size < g.offset := of_decide_eq_true hgap
    have hlength := hole_length (Or.inr (hn hgap)) hlt
    rw [BitVec.lt_def] at hlt
    rw [hlength, toInt_of_lt (hn hgap)]
    omega
  -- each side of the claim, in terms of the answers alone
  have hrefuse : (err ≠ .ENOERR ∧ total (g.calls S fuel mem uio) = 0) ↔
      g.refuses S fuel mem uio := by
    by_cases hno : g.gap = true ∧ mem = false
    · obtain ⟨rfl, hnone⟩ := hres.noMemory hno
      rw [hnone]
      exact iff_of_true ⟨nofun, rfl⟩ (Or.inl hno)
    · rw [hres.result hno]
      constructor
      · exact fun hz => Or.inr hz.symm
      · exact fun hz => (hz.resolve_left hno).symm
  have hsum : (∀ k, g.offset.toNat + total ((g.dataAnswers S fuel uio).take k) < 2 ^ 32) ↔
      g.offset.toNat + total (g.dataAnswers S fuel uio) < 2 ^ 32 := by
    constructor
    · intro hall
      have hlast := hall (g.dataAnswers S fuel uio).length
      rwa [List.take_length] at hlast
    · intro hlast k
      have hle := total_take_le (g.dataAnswers S fuel uio) k
      omega
  constructor
  · intro hexact
    rcases hexact.rest with hzero | ⟨hwrap, hpos, hend⟩
    · exact Or.inl (hrefuse.mp hzero)
    by_cases hno : g.gap = true ∧ mem = false
    · exact Or.inl (Or.inl hno)
    -- a write that comes to its end stores `pos`, any other one keeps the offset of its start
    refine Or.inr ⟨fun hends => ?_, fun hnot => ?_⟩
    · have hval := hend hends
      have hnat := toInt_nonneg_iff.mp hpos
      rw [toInt_of_lt hnat] at hval
      omega
    · rw [hres.stays hnot] at hpos
      exact ⟨toInt_nonneg_iff.mp hpos, hsum.mp hwrap⟩
  · rintro (href | ⟨hend, hcut⟩)
    · exact ⟨hhole, Or.inl (hrefuse.mpr href)⟩
    by_cases hno : g.gap = true ∧ mem = false
    · exact ⟨hhole, Or.inl (hrefuse.mpr (Or.inl hno))⟩
    refine ⟨hhole, Or.inr ?_⟩
    by_cases hends : g.ends S fuel uio
    · have hlt := hend hends
      have hnat : h'.offset.toNat = g.offset.toNat + total (g.dataAnswers S fuel uio) := by
        rw [hres.ends hno hends, BitVec.toNat_add, BitVec.toNat_ofNat]
        omega
      have hval : h'.offset.toInt = g.offset.toNat + total (g.dataAnswers S fuel uio) := by
        rw [toInt_of_lt (by omega), hnat]
        rfl
      refine ⟨hsum.mpr (by omega), ?_, fun _ => hval⟩
      rw [hval]
      omega
    · obtain ⟨hstart, hlt⟩ := hcut hends
      refine ⟨hsum.mpr hlt, ?_, fun h => absurd h hends⟩
      rw [hres.stays hends]
      exact toInt_nonneg_iff.mpr hstart

/-- **Offsets.**  From any offset that is not negative, a seek is exact unless the sum of
    `SEEK_END` exceeds 32 bits, and a write after it is exact when it ends below `2 ^ 31` or is
    refused. -/
theorem offset_arithmetic (S : FatSupport Disk Pos) (h : Handle Disk Pos)
    (hoff : 0 ≤ h.offset.toInt) (apos : BitVec 32) (whence : Whence) :
    (SeekExact S h apos whence ↔ ¬h.SumWraps S apos whence) ∧
    ∀ (h₁ h₂ : Handle Disk Pos) (fuel : Nat) (mem : Bool) (uio : Uio) (err : Err)
      (resid : BitVec 32), h₁ = (foLseek S h apos whence).2.1 →
      foWrite S fuel mem h₁ uio = some (err, h₂, resid) →
      (WriteExact S fuel mem (h₁.toEnd S) h₂ uio err ↔ (h₁.toEnd S).Fits S fuel mem uio) := by
  refine ⟨seekExact_iff hoff apos whence, ?_⟩
  rintro h₁ h₂ fuel mem uio err resid rfl hw
  have hoff' := toInt_nonneg_iff.mp hoff
  -- the seek leaves an offset that is not negative
  have hnew : (foLseek S h apos whence).2.1.offset.toNat < 2 ^ 31 := by
    cases hto : h.seekTo apos whence with
    | none => simpa only [foLseek, hto] using hoff'
    | some pos =>
      rcases foLseek_cases (S := S) hto with ⟨-, hres⟩ | ⟨hlt, -, -, hpos, -⟩
        | ⟨-, -, -, hpos, -⟩
      · rw [hres]
        exact hoff'
      · rw [hpos]
        exact hlt
      · rw [hpos]
        exact hoff'
  refine writeExact_iff (fun hgap => ?_) hw
  revert hgap
  unfold Handle.toEnd Handle.gap
  split
  · -- in append mode the offset is the size
    intro hgap
    exact absurd (of_decide_eq_true hgap) (BitVec.lt_irrefl _)
  · exact fun _ => hnew

/-- A descriptor on a file of the given size. -/
def sizedFile (size offset : BitVec 32) (rooms : List Nat) : Handle RoomDisk (BitVec 32) :=
  ⟨(fun _ => 0, rooms), ⟨size, false, false, 2⟩, if size < offset then size else offset, false,
    offset⟩

/-- A seek to the third byte of a file of four, and a write from there. -/
theorem offset_arithmetic_small :
    SeekExact roomSupport (sizedFile 4 0 [3]) 2 .SEEK_SET ∧
    ∃ h₂, foWrite roomSupport 4 true (foLseek roomSupport (sizedFile 4 0 [3]) 2 .SEEK_SET).2.1
        someBytes = some (.ENOERR, h₂, 0) ∧
      WriteExact roomSupport 4 true
        ((foLseek roomSupport (sizedFile 4 0 [3]) 2 .SEEK_SET).2.1.toEnd roomSupport) h₂ someBytes
        .ENOERR := by
  have hboth := offset_arithmetic roomSupport (sizedFile 4 0 [3]) (by decide) 2 .SEEK_SET
  refine ⟨hboth.1.mpr (fun hw => nomatch hw.1), _, rfl, ?_⟩
  refine (hboth.2 _ _ 4 true someBytes .ENOERR 0 rfl rfl).mpr (Or.inr ⟨fun _ => ?_, fun hno => ?_⟩)
  · decide
  · exact absurd ⟨by decide, by decide⟩ hno

/-- Ten bytes behind the end of a file of `2 ^ 32 - 1` bytes, `fatfs_fo_lseek` goes to offset 9;
    and a write of three bytes at `2 ^ 31 - 2` leaves a negative offset. -/
theorem offset_wraps :
    ((foLseek roomSupport (sizedFile 0xFFFFFFFF 0 []) 10 .SEEK_END).1 = .ENOERR ∧
      (foLseek roomSupport (sizedFile 0xFFFFFFFF 0 []) 10 .SEEK_END).2.2 = 9 ∧
      ¬SeekExact roomSupport (sizedFile 0xFFFFFFFF 0 []) 10 .SEEK_END) ∧
    ∃ h₂, foWrite roomSupport 4 true (sizedFile 0x7FFFFFFE 0x7FFFFFFE [3]) someBytes
        = some (.ENOERR, h₂, 0) ∧ h₂.offset.toInt < 0 ∧
      ¬WriteExact roomSupport 4 true
        ((sizedFile 0x7FFFFFFE 0x7FFFFFFE [3]).toEnd roomSupport) h₂ someBytes .ENOERR := by
  refine ⟨⟨by decide, by decide, fun hexact => ?_⟩, _, rfl, by decide, fun hexact => ?_⟩
  · obtain ⟨b, hb, hsum, -⟩ := hexact.sum (by decide)
    obtain rfl := Option.some.inj hb
    exact absurd hsum (by decide)
  · rcases hexact.rest with ⟨herr, -⟩ | ⟨-, hpos, -⟩
    · exact herr rfl
    · exact absurd hpos (by decide)

end Ecos.Fat
