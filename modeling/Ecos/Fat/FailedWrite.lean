import Ecos.Fat.ByteFile

namespace Ecos.Fat

open Ecos.Lib

/-!
# Writes that fail

What `fatfs_fo_write` leaves behind when it returns an error, for every answer that
`fatfs_write_data` may give: any error code with any count, in the loop that fills the hole and
in the loop over the vectors.

* `WriteLaws` — the support code, failing or not, stores the bytes that it counts, and touches
  nothing outside the request;
* `FatSupport.answers`, `FatSupport.vecAnswers`, `Handle.calls` — the answers that a write meets on
  its way;
* `FatSupport.logged`, `foWrite_logged` — the same write on a disk that logs every call of
  `fatfs_write_data` finds these answers in its log;
* `WriteExit` — the three ways out of `fatfs_fo_write`, with what each leaves;
* `failed_write` — the descriptor is as good as before exactly when the write was not cut short
  after bytes had been taken.

The early returns inside the loops come after the cursor has moved and before the size and the
offset are stored.
-/

/-! ### The support code -/

/-- How the support code writes, whether it fails or not: the bytes that it counts are stored, and
    the cursor is behind them. -/
structure WriteLaws {Disk Pos : Type} (S : FatSupport Disk Pos) (off : Pos → Nat)
    (content : Disk → Dentry → Nat → UInt8) : Prop extends CursorLaws S off where
  /-- An offset within a file fits 32 bits. -/
  bounded : ∀ p, off p < 2 ^ 32
  /-- Placing the cursor leaves the data alone. -/
  setpos_content : ∀ d e p n, n ≤ e.size → content (S.setpos d e p n).2.1 e = content d e
  /-- The bytes that are counted are stored.  Behind them the rest of the request may have been
      touched, and nothing else. -/
  stores : ∀ {d e p buf err d' e' p' l}, S.writeData d e p buf = (err, d', e', p', l) →
    ∀ k, k < off p + l.toNat ∨ off p + buf.length ≤ k →
      content d' e' k = overwrite (content d e) (off p) (buf.take l.toNat) k
  /-- The size of a file does not say where its data is. -/
  resize : ∀ d e n, content d { e with size := n } = content d e

/-- Where the support code works: the disk, the entry and the cursor that it is passed. -/
structure Place (Disk Pos : Type) where
  disk : Disk
  dentry : Dentry
  cursor : Pos

variable {Disk Pos : Type}

/-- Where a loop is, as the support code sees it. -/
def Xfer.place (x : Xfer Disk Pos) : Place Disk Pos := ⟨x.disk, x.dentry, x.cursor⟩

/-- Where a descriptor is, as the support code sees it. -/
def Handle.place (h : Handle Disk Pos) : Place Disk Pos := ⟨h.disk, h.dentry, h.pos⟩

/-- An answer of `fatfs_write_data`: its result, and the count in `*len`. -/
structure Answer where
  err : Err
  count : Nat
  deriving DecidableEq, Repr

/-- The number of bytes that were taken, by all the calls together. -/
def total (as : List Answer) : Nat := (as.map Answer.count).sum

/-- The answers to the calls that write one buffer, up to the first error, and where they
    lead. -/
def FatSupport.answers (S : FatSupport Disk Pos) :
    Nat → Place Disk Pos → List UInt8 → List Answer × Place Disk Pos
  | 0, w, _ => ([], w)
  | fuel + 1, w, buf =>
    if buf = [] then ([], w)
    else
      match S.writeData w.disk w.dentry w.cursor buf with
      | (err, disk, dentry, cursor, l) =>
        if err = .ENOERR then
          let (as, w') := S.answers fuel ⟨disk, dentry, cursor⟩ (buf.drop l.toNat)
          (⟨err, l.toNat⟩ :: as, w')
        else ([⟨err, l.toNat⟩], ⟨disk, dentry, cursor⟩)

/-- There was no error, so that the loop goes on with what is left of the buffer. -/
def Answer.isOk (a : Answer) : Bool := a.err = .ENOERR

/-- There was no error, or no space: the function does not return for it. -/
def Answer.goesOn (a : Answer) : Bool := a.err = .ENOERR ∨ a.err = .ENOSPC

/-- The answers to the calls that write the vectors: `ENOSPC` ends a vector, other errors end
    the write. -/
def FatSupport.vecAnswers (S : FatSupport Disk Pos) (fuel : Nat) :
    Place Disk Pos → List Iovec → List Answer
  | _, [] => []
  | w, v :: vs =>
    let (as, w') := S.answers fuel w v.buf
    if as.all Answer.goesOn then as ++ S.vecAnswers fuel w' vs else as

variable (S : FatSupport Disk Pos)

/-- Is there a hole to fill before the data can be written? -/
def Handle.gap (h : Handle Disk Pos) : Bool := h.dentry.size < h.offset

/-- The answers in the loop that fills the hole, and where they lead. -/
def Handle.holeAnswers (fuel : Nat) (h : Handle Disk Pos) : List Answer × Place Disk Pos :=
  if h.gap then S.answers fuel h.place h.hole else ([], h.place)

/-- The answers in the loop over the vectors, which is reached when the hole could be filled. -/
def Handle.dataAnswers (fuel : Nat) (h : Handle Disk Pos) (uio : Uio) : List Answer :=
  let (as, w) := h.holeAnswers S fuel
  if as.all Answer.isOk then S.vecAnswers fuel w uio.iov else []

/-- The calls of `fatfs_write_data` that a write makes, with their answers: those for the hole,
    then those for the vectors. -/
def Handle.calls (fuel : Nat) (mem : Bool) (g : Handle Disk Pos) (uio : Uio) : List Answer :=
  if g.gap ∧ mem = false then []
  else (g.holeAnswers S fuel).1 ++ g.dataAnswers S fuel uio

variable {S} {off : Pos → Nat} {content : Disk → Dentry → Nat → UInt8}
  {h h' g : Handle Disk Pos} {x x' : Xfer Disk Pos} {w w' : Place Disk Pos} {fuel : Nat}
  {err : Err} {buf : List UInt8}

/-- No answers, no bytes taken. -/
@[simp] theorem total_nil : total [] = 0 := rfl

/-- An answer adds the bytes that it took. -/
@[simp] theorem total_cons (a : Answer) (as : List Answer) :
    total (a :: as) = a.count + total as := by
  simp [total]

/-- The bytes of two lists of answers are those of both. -/
@[simp] theorem total_append (as bs : List Answer) :
    total (as ++ bs) = total as + total bs := by
  simp [total]

/-- Nothing was taken when every answer says so, and only then. -/
theorem total_eq_zero {as : List Answer} : total as = 0 ↔ ∀ a ∈ as, a.count = 0 := by
  induction as with
  | nil => simp
  | cons a as ih => simp [ih]

/-! ### One buffer -/

/-- The bytes `d` were stored at the cursor, which stands behind them; of a request of `n` bytes
    the rest may have been touched. -/
structure Put (off : Pos → Nat) (content : Disk → Dentry → Nat → UInt8)
    (w w' : Place Disk Pos) (d : List UInt8) (n : Nat) : Prop where
  le : d.length ≤ n
  cursor : off w'.cursor = off w.cursor + d.length
  size : w'.dentry.size = w.dentry.size
  content : ∀ k, k < off w.cursor + d.length ∨ off w.cursor + n ≤ k →
    content w'.disk w'.dentry k = overwrite (content w.disk w.dentry) (off w.cursor) d k

/-- Nothing written, of a request of any size: the file is as it was. -/
theorem Put.refl (w : Place Disk Pos) (n : Nat) : Put off content w w [] n := by
  refine ⟨Nat.zero_le _, rfl, rfl, fun k _ => ?_⟩
  rw [overwrite_nil]

/-- Two transfers one after the other, within a larger request. -/
theorem Put.trans {w'' : Place Disk Pos} {d d' : List UInt8} {n n' m : Nat}
    (p : Put off content w w' d n) (p' : Put off content w' w'' d' n') (hn : n ≤ m)
    (hn' : d.length + n' ≤ m) : Put off content w w'' (d ++ d') m := by
  have hle := p'.le
  refine ⟨?_, ?_, p'.size.trans p.size, fun k hk => ?_⟩
  · rw [List.length_append]
    omega
  · rw [p'.cursor, p.cursor, List.length_append]
    omega
  rw [List.length_append] at hk
  have hrest := p'.content k (by rw [p.cursor]; omega)
  rw [hrest, p.cursor, ← overwrite_append]
  -- what the first transfer may have touched behind its count, the second one covers
  apply overwrite_congr
  intro hout
  exact p.content k (by omega)

/-- One call stores the beginning of its buffer that it counts. -/
theorem WriteLaws.put (L : WriteLaws S off content) {disk : Disk} {dentry : Dentry} {cursor : Pos}
    {l : BitVec 32}
    (hw : S.writeData w.disk w.dentry w.cursor buf = (err, disk, dentry, cursor, l)) :
    Put off content w ⟨disk, dentry, cursor⟩ (buf.take l.toNat) buf.length ∧
      (buf.take l.toNat).length = l.toNat := by
  obtain ⟨hmoved, hcount, hsize⟩ := L.writeData hw
  have htake : (buf.take l.toNat).length = l.toNat := by
    rw [List.length_take]
    omega
  refine ⟨⟨by omega, ?_, hsize, fun k hk => L.stores hw k (by omega)⟩, htake⟩
  rw [htake]
  exact hmoved

/-- The call that fails is the last one, and what it counted is stored. -/
theorem answers_fail {disk : Disk} {dentry : Dentry} {cursor : Pos} {l : BitVec 32}
    (hne : buf ≠ [])
    (hwrite : S.writeData w.disk w.dentry w.cursor buf = (err, disk, dentry, cursor, l))
    (herr : err ≠ .ENOERR) :
    S.answers (fuel + 1) w buf = ([⟨err, l.toNat⟩], ⟨disk, dentry, cursor⟩) := by
  simp only [FatSupport.answers, if_neg hne, hwrite, if_neg herr]

/-- Behind a call that succeeds, the calls for the rest follow. -/
theorem answers_next {disk : Disk} {dentry : Dentry} {cursor : Pos} {l : BitVec 32}
    (hne : buf ≠ [])
    (hwrite : S.writeData w.disk w.dentry w.cursor buf = (.ENOERR, disk, dentry, cursor, l)) :
    S.answers (fuel + 1) w buf
      = (⟨.ENOERR, l.toNat⟩ :: (S.answers fuel ⟨disk, dentry, cursor⟩ (buf.drop l.toNat)).1,
        (S.answers fuel ⟨disk, dentry, cursor⟩ (buf.drop l.toNat)).2) := by
  simp only [FatSupport.answers, if_neg hne, hwrite, if_true]

/-- The calls for one buffer store a beginning of it. -/
theorem answers_put (L : WriteLaws S off content) (fuel : Nat) (w : Place Disk Pos)
    (buf : List UInt8) :
    ∃ d, Put off content w (S.answers fuel w buf).2 d buf.length ∧
      d.length = total (S.answers fuel w buf).1 ∧ d = buf.take d.length := by
  induction fuel generalizing w buf with
  | zero => exact ⟨[], .refl w _, rfl, rfl⟩
  | succ fuel ih =>
    by_cases hnil : buf = []
    · simp only [FatSupport.answers, hnil, if_true]
      exact ⟨[], .refl w _, rfl, rfl⟩
    rcases hw : S.writeData w.disk w.dentry w.cursor buf with ⟨err, disk, dentry, cursor, l⟩
    obtain ⟨hput, htake⟩ := L.put hw
    by_cases hok : err = .ENOERR
    · -- the loop goes on with the rest of the buffer
      subst hok
      rw [answers_next hnil hw]
      obtain ⟨d, hrest, hlen, hd⟩ := ih ⟨disk, dentry, cursor⟩ (buf.drop l.toNat)
      have hsplit : buf.length = l.toNat + (buf.drop l.toNat).length := by
        have hle := hput.le
        rw [htake] at hle
        rw [List.length_drop]
        omega
      refine ⟨buf.take l.toNat ++ d, hput.trans hrest (Nat.le_refl _) (by omega), ?_, ?_⟩
      · rw [List.length_append, htake, hlen, total_cons]
      · rw [List.length_append, htake, List.take_add, ← hd]
    · rw [answers_fail hnil hw hok]
      exact ⟨_, hput, by simp [htake], by rw [htake]⟩

/-! ### The loops -/

/-- The loop that fills the hole gets these answers, and fails when one of them is an error. -/
theorem fillHole_answers (hr : fillHole S fuel x buf = some (err, x')) :
    (S.answers fuel x.place buf).2 = x'.place ∧ x'.pos = x.pos ∧
      (err = .ENOERR ↔ (S.answers fuel x.place buf).1.all Answer.isOk = true) := by
  induction fuel generalizing x buf with
  | zero => cases hr
  | succ fuel ih =>
    cases fillHole_turn hr with
    | done => exact ⟨rfl, rfl, iff_of_true rfl rfl⟩
    | fail hne hwrite herr =>
      rw [answers_fail (w := x.place) hne hwrite herr]
      exact ⟨rfl, rfl, by simp [Answer.isOk]⟩
    | next hne hwrite hrest =>
      obtain ⟨hplace, hpos, hall⟩ := ih hrest
      rw [answers_next (w := x.place) hne hwrite]
      refine ⟨hplace, hpos, hall.trans ?_⟩
      simp only [List.all_cons, Answer.isOk, decide_true, Bool.true_and]
      rfl

/-- How the answers of a vector end its loop: the function returns for an error other than
    `ENOSPC`. -/
def Flow.Of (as : List Answer) : Flow → Prop
  | .next _ => as.all Answer.goesOn = true
  | .ret err => as.all Answer.goesOn = false ∧ err ≠ .ENOERR

/-- A call that succeeds does not end the loop. -/
theorem Flow.of_cons {a : Answer} {as : List Answer} {flow : Flow} (ha : a.err = .ENOERR) :
    flow.Of (a :: as) ↔ flow.Of as := by
  cases flow with
  | next err => simp [Flow.Of, Answer.goesOn, ha]
  | ret err => simp [Flow.Of, Answer.goesOn, ha]

/-- The loop that writes one vector gets these answers; `pos` counts what was taken. -/
theorem writeVec_answers {flow : Flow} (hr : writeVec S fuel err x buf = some (flow, x')) :
    (S.answers fuel x.place buf).2 = x'.place ∧
      x'.pos = x.pos + BitVec.ofNat 32 (total (S.answers fuel x.place buf).1) ∧
      flow.Of (S.answers fuel x.place buf).1 := by
  induction fuel generalizing x err buf with
  | zero => cases hr
  | succ fuel ih =>
    cases writeVec_turn hr with
    | done => exact ⟨rfl, (BitVec.add_zero _).symm, rfl⟩
    | full hne hwrite =>
      rw [answers_fail (w := x.place) hne hwrite nofun]
      exact ⟨rfl, by simp, rfl⟩
    | fail hne hwrite hspace herr =>
      rw [answers_fail (w := x.place) hne hwrite herr]
      exact ⟨rfl, by simp, by simp [Flow.Of, Answer.goesOn, hspace, herr]⟩
    | next hne hwrite hrest =>
      obtain ⟨hplace, hpos, hflow⟩ := ih hrest
      rw [answers_next (w := x.place) hne hwrite]
      refine ⟨hplace, ?_, (Flow.of_cons rfl).mpr hflow⟩
      rw [hpos, total_cons, BitVec.ofNat_add, ← BitVec.add_assoc]
      simp only [BitVec.ofNat_toNat, BitVec.setWidth_eq]
      rfl

/-- The answers for the vectors, when the loop goes on behind the first one. -/
theorem vecAnswers_next {v : Iovec} (vs : List Iovec)
    (hgo : (S.answers fuel w v.buf).1.all Answer.goesOn = true) :
    S.vecAnswers fuel w (v :: vs)
      = (S.answers fuel w v.buf).1 ++ S.vecAnswers fuel (S.answers fuel w v.buf).2 vs := by
  simp only [FatSupport.vecAnswers, hgo, if_true]

/-- The answers for the vectors, when the function returns from the first one. -/
theorem vecAnswers_stop {v : Iovec} (vs : List Iovec)
    (hstop : (S.answers fuel w v.buf).1.all Answer.goesOn = false) :
    S.vecAnswers fuel w (v :: vs) = (S.answers fuel w v.buf).1 := by
  simp only [FatSupport.vecAnswers, hstop, Bool.false_eq_true, if_false]

/-- Answers that do not end the loop can be left out in front. -/
theorem Flow.of_append {as bs : List Answer} {flow : Flow} (has : as.all Answer.goesOn = true) :
    flow.Of (as ++ bs) ↔ flow.Of bs := by
  cases flow with
  | next err => simp only [Flow.Of, List.all_append, has, Bool.true_and]
  | ret err => simp only [Flow.Of, List.all_append, has, Bool.true_and]

/-- The loop over the vectors gets these answers; `pos` counts what was taken. -/
theorem writeVecs_flow {flow : Flow} {vs : List Iovec}
    (hr : writeVecs S fuel err x vs = some (flow, x')) :
    x'.pos = x.pos + BitVec.ofNat 32 (total (S.vecAnswers fuel x.place vs)) ∧
      flow.Of (S.vecAnswers fuel x.place vs) := by
  induction vs generalizing x err with
  | nil =>
    simp only [writeVecs, Option.some.injEq, Prod.mk.injEq] at hr
    obtain ⟨rfl, rfl⟩ := hr
    exact ⟨(BitVec.add_zero _).symm, rfl⟩
  | cons v vs ih =>
    simp only [writeVecs] at hr
    split at hr
    · cases hr
    · -- the loop goes on with the next vector
      rename_i err₁ y hvec
      obtain ⟨hplace, hpos, hgo⟩ := writeVec_answers hvec
      obtain ⟨hpos', hflow⟩ := ih hr
      rw [vecAnswers_next vs hgo, hplace]
      constructor
      · rw [hpos', hpos, total_append, BitVec.ofNat_add, BitVec.add_assoc]
      · exact (Flow.of_append hgo).mpr hflow
    · -- the function returns
      rename_i err₁ y hvec
      obtain ⟨hplace, hpos, hflow⟩ := writeVec_answers hvec
      obtain ⟨rfl, rfl⟩ := Prod.mk.inj (Option.some.inj hr)
      rw [vecAnswers_stop vs hflow.1]
      exact ⟨hpos, hflow⟩

/-- The loop over the vectors stores the bytes that are counted; when these are as many as the
    vectors have, they are the bytes of the vectors. -/
theorem writeVecs_answers (L : WriteLaws S off content) {flow : Flow} {vs : List Iovec}
    (hr : writeVecs S fuel err x vs = some (flow, x')) :
    ∃ d, Put off content x.place x'.place d (vs.flatMap Iovec.buf).length ∧
      d.length = total (S.vecAnswers fuel x.place vs) ∧
      (d.length = (vs.flatMap Iovec.buf).length → d = vs.flatMap Iovec.buf) := by
  induction vs generalizing x err with
  | nil =>
    simp only [writeVecs, Option.some.injEq, Prod.mk.injEq] at hr
    obtain ⟨rfl, rfl⟩ := hr
    exact ⟨[], .refl _ _, rfl, fun _ => rfl⟩
  | cons v vs ih =>
    obtain ⟨d, hput, hlen, hd⟩ := answers_put L fuel x.place v.buf
    have hle := hput.le
    rw [List.flatMap_cons, List.length_append]
    simp only [writeVecs] at hr
    split at hr
    · cases hr
    · -- the loop goes on with the next vector
      rename_i err₁ y hvec
      obtain ⟨hplace, -, hgo⟩ := writeVec_answers hvec
      obtain ⟨d', hput', hlen', hd'⟩ := ih hr
      rw [hplace] at hput
      have hle' := hput'.le
      refine ⟨d ++ d', hput.trans hput' (by omega) (by omega), ?_, ?_⟩
      · rw [vecAnswers_next vs hgo, hplace, total_append, List.length_append, hlen, hlen']
      · intro hfull
        rw [List.length_append] at hfull
        -- both parts are complete
        have hfirst : d = v.buf := by
          rw [hd, List.take_of_length_le (by omega)]
        rw [hfirst, hd' (by omega)]
    · -- the function returns
      rename_i err₁ y hvec
      obtain ⟨hplace, -, hflow⟩ := writeVec_answers hvec
      obtain ⟨rfl, rfl⟩ := Prod.mk.inj (Option.some.inj hr)
      rw [hplace] at hput
      refine ⟨d, ?_, by rw [vecAnswers_stop vs hflow.1, hlen], ?_⟩
      · have hfit := hput.trans (.refl _ 0) (Nat.le_add_right _ (vs.flatMap Iovec.buf).length)
          (by omega)
        rwa [List.append_nil] at hfit
      · intro hfull
        -- nothing is missing behind this vector
        have hfirst : d = v.buf := by
          rw [hd, List.take_of_length_le (by omega)]
        have hnone : vs.flatMap Iovec.buf = [] := List.length_eq_zero_iff.mp (by omega)
        rw [hfirst, hnone, List.append_nil]

/-! ### The log of the calls -/

/-- The support code on a disk that comes with a log: every call of `fatfs_write_data` puts its
    answer at the end of it. -/
def FatSupport.logged (S : FatSupport Disk Pos) : FatSupport (Disk × List Answer) Pos where
  initpos d e := S.initpos d.1 e
  setpos d e p n :=
    let (err, d', p') := S.setpos d.1 e p n
    (err, (d', d.2), p')
  readData d e p l :=
    let (err, d', p', buf) := S.readData d.1 e p l
    (err, (d', d.2), p', buf)
  writeData d e p buf :=
    let (err, d', e', p', l) := S.writeData d.1 e p buf
    (err, (d', d.2 ++ [⟨err, l.toNat⟩]), e', p', l)
  truncFile d e :=
    let (d', e') := S.truncFile d.1 e
    ((d', d.2), e')

/-- A descriptor, on the disk with the log `as`, for running the code over the logged support. -/
def Handle.withLog (h : Handle Disk Pos) (as : List Answer) : Handle (Disk × List Answer) Pos :=
  ⟨(h.disk, as), h.dentry, h.pos, h.append, h.offset⟩

/-- A loop, on the disk with the log `as`, for running the code over the logged support. -/
def Xfer.withLog (x : Xfer Disk Pos) (as : List Answer) : Xfer (Disk × List Answer) Pos :=
  ⟨(x.disk, as), x.dentry, x.cursor, x.pos, x.resid⟩

/-- A call is answered as before, and logged behind those before it. -/
theorem logged_writeData (S : FatSupport Disk Pos) (x : Xfer Disk Pos) (as : List Answer)
    {disk : Disk} {dentry : Dentry} {cursor : Pos} {l : BitVec 32}
    (hw : S.writeData x.disk x.dentry x.cursor buf = (err, disk, dentry, cursor, l)) :
    S.logged.writeData (x.withLog as).disk (x.withLog as).dentry (x.withLog as).cursor buf
      = (err, (disk, as ++ [⟨err, l.toNat⟩]), dentry, cursor, l) := by
  simp only [FatSupport.logged, Xfer.withLog, hw]

/-- The log of the loop that fills the hole has its answers, and the loop returns what it did. -/
theorem fillHole_logged (S : FatSupport Disk Pos) (fuel : Nat) (x : Xfer Disk Pos)
    (as : List Answer) (buf : List UInt8) :
    fillHole S.logged fuel (x.withLog as) buf = (fillHole S fuel x buf).map fun r =>
      (r.1, r.2.withLog (as ++ (S.answers fuel x.place buf).1)) := by
  induction fuel generalizing x as buf with
  | zero => rfl
  | succ fuel ih =>
    by_cases hnil : buf = []
    · simp [fillHole, FatSupport.answers, hnil]
    rcases hw : S.writeData x.disk x.dentry x.cursor buf with ⟨err, disk, dentry, cursor, l⟩
    have hlog := logged_writeData S x as hw
    by_cases hok : err = .ENOERR
    · subst hok
      simp only [fillHole, hnil, if_false, hlog, hw]
      rw [answers_next (w := x.place) hnil hw]
      have hrest := ih { x with disk, dentry, cursor } (as ++ [⟨.ENOERR, l.toNat⟩])
        (buf.drop l.toNat)
      rw [List.append_assoc] at hrest
      exact hrest
    · rw [answers_fail (w := x.place) hnil hw hok]
      simp only [fillHole, hnil, if_false, hlog, hw]
      rfl

/-- The log of the loop that writes one vector has its answers, and the loop returns what it did. -/
theorem writeVec_logged (S : FatSupport Disk Pos) (fuel : Nat) (err : Err) (x : Xfer Disk Pos)
    (as : List Answer) (buf : List UInt8) :
    writeVec S.logged fuel err (x.withLog as) buf = (writeVec S fuel err x buf).map fun r =>
      (r.1, r.2.withLog (as ++ (S.answers fuel x.place buf).1)) := by
  induction fuel generalizing err x as buf with
  | zero => rfl
  | succ fuel ih =>
    by_cases hnil : buf = []
    · simp [writeVec, FatSupport.answers, hnil]
    rcases hw : S.writeData x.disk x.dentry x.cursor buf with ⟨err₁, disk, dentry, cursor, l⟩
    have hlog := logged_writeData S x as hw
    by_cases hok : err₁ = .ENOERR
    · subst hok
      rw [answers_next (w := x.place) hnil hw]
      have hrest := ih .ENOERR ⟨disk, dentry, cursor, x.pos + l, x.resid - l⟩
        (as ++ [⟨.ENOERR, l.toNat⟩]) (buf.drop l.toNat)
      rw [List.append_assoc] at hrest
      simp only [writeVec, hnil, if_false, hlog, hw]
      exact hrest
    · rw [answers_fail (w := x.place) hnil hw hok]
      simp only [writeVec, hnil, if_false, hlog, hw]
      by_cases hfull : err₁ = .ENOSPC
      · rw [if_pos hfull, if_pos hfull]
        rfl
      · rw [if_neg hfull, if_neg hfull, if_pos hok, if_pos hok]
        rfl

/-- The log of the loop over the vectors has its answers, and the loop returns what it did. -/
theorem writeVecs_logged (S : FatSupport Disk Pos) (fuel : Nat) (err : Err) (x : Xfer Disk Pos)
    (as : List Answer) (vs : List Iovec) :
    writeVecs S.logged fuel err (x.withLog as) vs = (writeVecs S fuel err x vs).map fun r =>
      (r.1, r.2.withLog (as ++ S.vecAnswers fuel x.place vs)) := by
  induction vs generalizing err x as with
  | nil => simp [writeVecs, FatSupport.vecAnswers]
  | cons v vs ih =>
    simp only [writeVecs, writeVec_logged]
    rcases hvec : writeVec S fuel err x v.buf with _ | ⟨err₁ | err₁, y⟩
    · rfl
    · -- the loop goes on with the next vector
      obtain ⟨hplace, -, hgo⟩ := writeVec_answers hvec
      rw [vecAnswers_next vs hgo, hplace, ← List.append_assoc]
      exact ih err₁ y _
    · obtain ⟨-, -, hstop, -⟩ := writeVec_answers hvec
      rw [vecAnswers_stop vs hstop]
      rfl

/-- The log behind the hole has the answers for the vectors, in their order. -/
theorem writeData_logged (S : FatSupport Disk Pos) (fuel : Nat) (h : Handle Disk Pos)
    (as : List Answer) (uio : Uio) :
    writeData S.logged fuel (h.withLog as) uio = (writeData S fuel h uio).map fun r =>
      (r.1, r.2.1.withLog (as ++ S.vecAnswers fuel h.place uio.iov), r.2.2) := by
  have hloop := writeVecs_logged S fuel .ENOERR (h.xfer uio) as uio.iov
  have hxfer : (h.withLog as).xfer uio = (h.xfer uio).withLog as := rfl
  simp only [writeData, hxfer, hloop]
  rcases writeVecs S fuel .ENOERR (h.xfer uio) uio.iov with _ | ⟨err | err, y⟩ <;> rfl

/-- The move to the end of the file, for a write that appends, makes no write call. -/
theorem toEnd_logged (S : FatSupport Disk Pos) (h : Handle Disk Pos) (as : List Answer) :
    (h.withLog as).toEnd S.logged = (h.toEnd S).withLog as := by
  have happend : (h.withLog as).append = h.append := rfl
  unfold Handle.toEnd
  rw [happend]
  by_cases happ : h.append = true
  · rw [if_pos happ, if_pos happ]
    rfl
  · rw [if_neg happ, if_neg happ]

/-- Behind a hole that has been filled, or without one, the log has all the calls of the write. -/
theorem writeData_calls (S : FatSupport Disk Pos) (fuel : Nat) (mem : Bool) {f : Handle Disk Pos}
    (as : List Answer) (uio : Uio) (hmem : ¬(g.gap = true ∧ mem = false))
    (hok : (g.holeAnswers S fuel).1.all Answer.isOk = true)
    (hplace : (g.holeAnswers S fuel).2 = f.place) :
    writeData S.logged fuel (f.withLog (as ++ (g.holeAnswers S fuel).1)) uio
      = (writeData S fuel f uio).map fun r =>
        (r.1, r.2.1.withLog (as ++ g.calls S fuel mem uio), r.2.2) := by
  have hcalls : g.calls S fuel mem uio
      = (g.holeAnswers S fuel).1 ++ S.vecAnswers fuel f.place uio.iov := by
    simp only [Handle.calls, hmem, if_false, Handle.dataAnswers, hok, if_true, hplace]
  rw [writeData_logged, hcalls, List.append_assoc]

/-- **The log of a write** has the answers to its calls, and is all that logging adds. -/
theorem foWrite_logged (S : FatSupport Disk Pos) (fuel : Nat) (mem : Bool) (h : Handle Disk Pos)
    (as : List Answer) (uio : Uio) :
    foWrite S.logged fuel mem (h.withLog as) uio = (foWrite S fuel mem h uio).map fun r =>
      (r.1, r.2.1.withLog (as ++ (h.toEnd S).calls S fuel mem uio), r.2.2) := by
  unfold foWrite
  rw [toEnd_logged]
  generalize h.toEnd S = g
  unfold writeAtOffset
  by_cases hlt : g.dentry.size < g.offset
  · have hgap : g.gap = true := decide_eq_true hlt
    have hlt' : (g.withLog as).dentry.size < (g.withLog as).offset := hlt
    rw [if_pos hlt, if_pos hlt']
    cases hmem : mem with
    | false =>
      simp only [Bool.false_eq_true, if_false, Option.map_some, Handle.calls, hgap, and_self,
        if_true, List.append_nil]
    | true =>
      have hfill := fillHole_logged S fuel (g.xfer uio) as g.hole
      have hxfer : (g.withLog as).xfer uio = (g.xfer uio).withLog as := rfl
      have hhole : (g.withLog as).hole = g.hole := rfl
      rw [if_pos rfl, if_pos rfl, hxfer, hhole, hfill]
      rcases hf : fillHole S fuel (g.xfer uio) g.hole with _ | ⟨err, y⟩
      · rfl
      obtain ⟨hplace, -, hall⟩ := fillHole_answers hf
      have hans : g.holeAnswers S fuel = S.answers fuel g.place g.hole := by
        simp only [Handle.holeAnswers, hgap, if_true]
      by_cases hok : err = .ENOERR
      · -- the zeros are written, and the vectors follow
        subst hok
        have hwrite := writeData_calls S fuel (g := g) true (f := g.partialXfer y) as uio
          (by simp) (by rw [hans]; exact hall.mp rfl) (by rw [hans]; exact hplace)
        rw [hans] at hwrite
        exact hwrite
      · have hbad : (S.answers fuel g.place g.hole).1.all Answer.isOk = false := by
          rw [← Bool.not_eq_true]
          exact fun hgood => hok (hall.mpr hgood)
        have hcalls : g.calls S fuel true uio = (S.answers fuel g.place g.hole).1 := by
          simp [Handle.calls, Handle.dataAnswers, hans, hbad]
        rw [hcalls]
        cases err with
        | ENOERR => exact absurd rfl hok
        | _ => rfl
  · have hgap : g.gap = false := decide_eq_false hlt
    have hnot : ¬(g.withLog as).dentry.size < (g.withLog as).offset := hlt
    have hans : g.holeAnswers S fuel = ([], g.place) := by
      simp only [Handle.holeAnswers, hgap, Bool.false_eq_true, if_false]
    rw [if_neg hlt, if_neg hnot]
    have hwrite := writeData_calls S fuel (g := g) mem (f := g) as uio (by simp [hgap])
      (by rw [hans]; rfl) (by rw [hans])
    rw [hans, List.append_nil] at hwrite
    exact hwrite

/-! ### The ways out -/

/-- The hole before the offset has been filled: the cursor is at the offset. -/
structure Handle.Filled (off : Pos → Nat) (content : Disk → Dentry → Nat → UInt8)
    (g f : Handle Disk Pos) : Prop where
  cursor : off f.pos = g.offset.toNat
  offset : f.offset = g.offset
  append : f.append = g.append
  size : f.dentry.size = g.dentry.size
  content : content f.disk f.dentry = overwrite (content g.disk g.dentry) g.dentry.size.toNat
    (List.replicate (g.offset.toNat - g.dentry.size.toNat) 0)

/-- A write that was cut short after `t` bytes: only the cursor has moved, and the bytes of the
    file outside the request are what they were. -/
structure Handle.CutShort (off : Pos → Nat) (content : Disk → Dentry → Nat → UInt8)
    (g g' : Handle Disk Pos) (uio : Uio) (t : Nat) : Prop where
  cursor : off g'.pos = off g.pos + t
  offset : g'.offset = g.offset
  append : g'.append = g.append
  size : g'.dentry.size = g.dentry.size
  frame : ∀ k < g.dentry.size.toNat,
    k < g.offset.toNat ∨ g.offset.toNat + uio.data.length ≤ k →
      content g'.disk g'.dentry k = content g.disk g.dentry k

/-- A write that came to its end and stored the bytes `d`, behind the zeros of the hole. -/
structure Handle.Completed (off : Pos → Nat) (content : Disk → Dentry → Nat → UInt8)
    (g g' : Handle Disk Pos) (uio : Uio) (d : List UInt8) : Prop where
  length : d.length ≤ uio.data.length
  full : d.length = uio.data.length → d = uio.data
  cursor : off g'.pos = g.offset.toNat + d.length
  offset : g'.offset.toNat = g.offset.toNat + d.length
  append : g'.append = g.append
  size : g'.dentry.size.toNat = max g.dentry.size.toNat (g.offset.toNat + d.length)
  content : ∀ k, k < g.offset.toNat + d.length ∨ g.offset.toNat + uio.data.length ≤ k →
    content g'.disk g'.dentry k
      = overwrite (overwrite (content g.disk g.dentry) g.dentry.size.toNat
          (List.replicate (g.offset.toNat - g.dentry.size.toNat) 0)) g.offset.toNat d k

/-- Below the old size, filling the hole changes nothing. -/
theorem Handle.Filled.frame {f : Handle Disk Pos} (hf : g.Filled off content f) {k : Nat}
    (hk : k < g.dentry.size.toNat) :
    content f.disk f.dentry k = content g.disk g.dentry k := by
  rw [hf.content, overwrite_of_lt _ _ hk]

/-- The two ways out of the loop over the vectors: all were passed, or an error returned. -/
theorem writeData_exit (L : WriteLaws S off content) {f : Handle Disk Pos} {uio : Uio}
    {resid : BitVec 32} (hf : g.Filled off content f)
    (hw : writeData S fuel f uio = some (err, h', resid)) :
    ((S.vecAnswers fuel f.place uio.iov).all Answer.goesOn = false ∧ err ≠ .ENOERR ∧
      f.CutShort off content h' uio (total (S.vecAnswers fuel f.place uio.iov))) ∨
    ((S.vecAnswers fuel f.place uio.iov).all Answer.goesOn = true ∧
      ∃ d, g.Completed off content h' uio d) := by
  have hcur : off (f.xfer uio).place.cursor = g.offset.toNat := hf.cursor
  simp only [writeData] at hw
  split at hw
  · cases hw
  · -- an early return: nothing but the cursor is stored
    rename_i err₁ y hloop
    obtain ⟨d, hput, hlen, -⟩ := writeVecs_answers L hloop
    obtain ⟨-, hflow⟩ := writeVecs_flow hloop
    simp only [Option.some.injEq, Prod.mk.injEq] at hw
    obtain ⟨rfl, rfl, -⟩ := hw
    refine Or.inl ⟨hflow.1, hflow.2, ?_, rfl, rfl, hput.size, fun k _ hout => ?_⟩
    · show off y.cursor = off f.pos + total (S.vecAnswers fuel (f.xfer uio).place uio.iov)
      rw [← hlen]
      exact hput.cursor
    · have hle : d.length ≤ uio.data.length := hput.le
      rw [hf.offset] at hout
      have hkeep := hput.content k (by rw [hcur]; show k < _ ∨ _ + uio.data.length ≤ k; omega)
      refine hkeep.trans ?_
      rw [hcur]
      rcases hout with hlt | hge
      · exact overwrite_of_lt _ _ hlt
      · exact overwrite_of_ge _ (by omega)
  · -- the end of the loop: the size and the offset are stored
    rename_i err₁ y hloop
    obtain ⟨d, hput, hlen, hfull⟩ := writeVecs_answers L hloop
    obtain ⟨hpos, hflow⟩ := writeVecs_flow hloop
    simp only [Option.some.injEq, Prod.mk.injEq] at hw
    obtain ⟨-, rfl, -⟩ := hw
    have hmoved : off y.cursor = g.offset.toNat + d.length := by
      rw [← hcur]
      exact hput.cursor
    -- the cursor does not wrap around, so neither does `pos`
    have hfit := L.bounded y.cursor
    have hnat : y.pos.toNat = g.offset.toNat + d.length := by
      rw [hpos, BitVec.toNat_add, BitVec.toNat_ofNat]
      show (f.offset.toNat + _) % _ = _
      rw [hf.offset]
      omega
    have hsize : y.dentry.size = g.dentry.size := hput.size.trans hf.size
    refine Or.inr ⟨hflow, d, hput.le, hfull, hmoved, hnat, hf.append, ?_, fun k hk => ?_⟩
    · show (if y.dentry.size < y.pos then y.pos else y.dentry.size).toNat = _
      rw [hsize]
      split
      · rename_i hlt
        rw [BitVec.lt_def] at hlt
        omega
      · rename_i hnot
        rw [BitVec.lt_def] at hnot
        omega
    · show content y.disk { y.dentry with size := _ } k = _
      rw [L.resize, ← hf.content, ← hcur]
      rw [← hcur] at hk
      exact hput.content k hk

/-- The ways out of `fatfs_fo_write`, with what they leave of the descriptor `g`. -/
inductive WriteExit (S : FatSupport Disk Pos) (off : Pos → Nat)
    (content : Disk → Dentry → Nat → UInt8) (fuel : Nat) (mem : Bool) (g : Handle Disk Pos)
    (uio : Uio) : Err → Handle Disk Pos → Prop
  /-- There is no memory for the zeros. -/
  | noMemory (hgap : g.gap = true) (hmem : mem = false) :
    WriteExit S off content fuel mem g uio .EINVAL g
  /-- A return from within a loop. -/
  | cutShort {err : Err} {g' : Handle Disk Pos} (herr : err ≠ .ENOERR)
      (hmem : g.gap = true → mem = true)
      (hans : (g.holeAnswers S fuel).1.all Answer.isOk = false ∨
        (g.dataAnswers S fuel uio).all Answer.goesOn = false)
      (hcut : g.CutShort off content g' uio
        (total ((g.holeAnswers S fuel).1 ++ g.dataAnswers S fuel uio))) :
    WriteExit S off content fuel mem g uio err g'
  /-- The end of the function. -/
  | completed {err : Err} {g' : Handle Disk Pos} {d : List UInt8}
      (hok : (g.holeAnswers S fuel).1.all Answer.isOk = true)
      (hgo : (g.dataAnswers S fuel uio).all Answer.goesOn = true)
      (hdone : g.Completed off content g' uio d) :
    WriteExit S off content fuel mem g uio err g'

/-- The ways out, once the hole has been filled with the answers `as`. -/
theorem Handle.Filled.exit (L : WriteLaws S off content) {mem : Bool} {uio : Uio}
    {resid : BitVec 32} {f : Handle Disk Pos} (hf : g.Filled off content f)
    (hmem : g.gap = true → mem = true) (hok : (g.holeAnswers S fuel).1.all Answer.isOk = true)
    (hplace : (g.holeAnswers S fuel).2 = f.place)
    (htotal : off f.pos = off g.pos + total (g.holeAnswers S fuel).1)
    (hw : writeData S fuel f uio = some (err, h', resid)) :
    WriteExit S off content fuel mem g uio err h' := by
  have hdata : g.dataAnswers S fuel uio = S.vecAnswers fuel f.place uio.iov := by
    simp only [Handle.dataAnswers, hok, if_true, hplace]
  rcases writeData_exit L hf hw with ⟨hans, herr, hcut⟩ | ⟨hgo, d, hdone⟩
  · refine .cutShort herr hmem (Or.inr (by rw [hdata]; exact hans)) ⟨?_, ?_, ?_, ?_, ?_⟩
    · rw [hcut.cursor, htotal, total_append, hdata]
      omega
    · exact hcut.offset.trans hf.offset
    · exact hcut.append.trans hf.append
    · exact hcut.size.trans hf.size
    · intro k hk hout
      rw [← hf.frame hk]
      exact hcut.frame k (by rw [hf.size]; exact hk) (by rw [hf.offset]; exact hout)
  · exact .completed hok (by rw [hdata]; exact hgo) hdone

/-- Before a hole the cursor is at the end of the file, which is where the filling starts. -/
theorem Handle.Coherent.at_end (hc : g.Coherent off) (hgap : g.dentry.size < g.offset) :
    off g.pos = g.dentry.size.toNat := by
  rw [BitVec.lt_def] at hgap
  rw [hc]
  omega

/-- The answers in the hole, when there is one. -/
theorem holeAnswers_of_gap (S : FatSupport Disk Pos) (fuel : Nat)
    (hgap : g.dentry.size < g.offset) :
    g.holeAnswers S fuel = S.answers fuel g.place g.hole := by
  have hgap' : g.gap = true := decide_eq_true hgap
  simp only [Handle.holeAnswers, hgap', if_true]

/-- The loop that fills the hole comes to its end, and the file reaches to the offset. -/
theorem fillHole_filled (L : WriteLaws S off content) {uio : Uio} (hc : g.Coherent off)
    (hn : g.Near) (hgap : g.dentry.size < g.offset)
    (hfill : fillHole S fuel (g.xfer uio) g.hole = some (.ENOERR, x')) :
    g.Filled off content (g.partialXfer x') ∧
      (g.holeAnswers S fuel).1.all Answer.isOk = true ∧
      (g.holeAnswers S fuel).2 = x'.place ∧
      off x'.cursor = off g.pos + total (g.holeAnswers S fuel).1 := by
  obtain ⟨d, hput, hlen, hd⟩ := answers_put L fuel g.place g.hole
  obtain ⟨hplace, -, hall⟩ := fillHole_answers hfill
  obtain ⟨hmoved, hsize⟩ := fillHole_spec L.toCursorLaws hfill
  have hcur := hc.at_end hgap
  have hhole := hole_eq hn hgap
  have hlength := hole_length hn hgap
  rw [BitVec.lt_def] at hgap
  have hput' : Put off content g.place x'.place d g.hole.length := by
    rw [← hplace]
    exact hput
  have hmoved : off x'.cursor = off g.pos + g.hole.length := hmoved
  have hcursor : off x'.cursor = off g.pos + d.length := hput'.cursor
  -- all zeros were counted
  have hzeros : d = List.replicate (g.offset.toNat - g.dentry.size.toNat) 0 := by
    rw [hd, List.take_of_length_le (by omega), hhole]
  rw [holeAnswers_of_gap S fuel (BitVec.lt_def.mpr hgap)]
  refine ⟨⟨?_, rfl, rfl, hsize, ?_⟩, hall.mp rfl, hplace, by rw [← hlen]; exact hcursor⟩
  · show off x'.cursor = _
    omega
  · show content x'.disk x'.dentry = _
    rw [← hzeros, ← hcur]
    ext k : 1
    apply hput'.content k
    show k < off g.pos + _ ∨ off g.pos + _ ≤ k
    omega

/-- The loop that fills the hole fails, and part of the hole may have been filled. -/
theorem fillHole_failed (L : WriteLaws S off content) {uio : Uio} (hc : g.Coherent off)
    (hgap : g.dentry.size < g.offset) (herr : err ≠ .ENOERR)
    (hfill : fillHole S fuel (g.xfer uio) g.hole = some (err, x')) :
    WriteExit S off content fuel true g uio err (g.partialXfer x') := by
  obtain ⟨d, hput, hlen, -⟩ := answers_put L fuel g.place g.hole
  obtain ⟨hplace, -, hall⟩ := fillHole_answers hfill
  have hcur := hc.at_end hgap
  have hput' : Put off content g.place x'.place d g.hole.length := by
    rw [← hplace]
    exact hput
  have hbad : (g.holeAnswers S fuel).1.all Answer.isOk = false := by
    rw [holeAnswers_of_gap S fuel hgap, ← Bool.not_eq_true]
    exact fun hok => herr (hall.mpr hok)
  have hnone : g.dataAnswers S fuel uio = [] := by
    simp only [Handle.dataAnswers, hbad, Bool.false_eq_true, if_false]
  refine .cutShort herr (fun _ => rfl) (Or.inl hbad) ⟨?_, rfl, rfl, hput'.size, fun k hk _ => ?_⟩
  · rw [hnone, List.append_nil, holeAnswers_of_gap S fuel hgap, ← hlen]
    exact hput'.cursor
  · -- the zeros go behind the end of the file
    have hbefore : k < off g.place.cursor := by
      show k < off g.pos
      omega
    exact (hput'.content k (by omega)).trans (overwrite_of_lt _ _ hbefore)

/-- Without a hole the cursor is at the offset, and nothing is to be filled. -/
theorem Handle.Coherent.filled (hc : g.Coherent off) (hnot : ¬g.dentry.size < g.offset) :
    g.holeAnswers S fuel = ([], g.place) ∧ g.Filled off content g := by
  have hgap : g.gap = false := decide_eq_false hnot
  rw [BitVec.lt_def] at hnot
  refine ⟨?_, ?_, rfl, rfl, rfl, ?_⟩
  · simp only [Handle.holeAnswers, hgap, Bool.false_eq_true, if_false]
  · rw [hc]
    omega
  · rw [Nat.sub_eq_zero_of_le (by omega), List.replicate_zero, overwrite_nil]

/-- `fatfs_fo_write` leaves in one of these ways, each with the calls that it made. -/
theorem writeAtOffset_exit (L : WriteLaws S off content) {mem : Bool} {uio : Uio}
    {resid : BitVec 32} (hc : g.Coherent off) (hn : g.Near)
    (hw : writeAtOffset S fuel mem g uio = some (err, h', resid)) :
    WriteExit S off content fuel mem g uio err h' := by
  unfold writeAtOffset at hw
  by_cases hlt : g.dentry.size < g.offset
  -- a hole has to be filled first
  · have hgap : g.gap = true := decide_eq_true hlt
    rw [if_pos hlt] at hw
    cases hmem : mem with
    | false =>
      simp only [hmem, Bool.false_eq_true, if_false, Option.some.injEq, Prod.mk.injEq] at hw
      obtain ⟨rfl, rfl, -⟩ := hw
      exact .noMemory hgap rfl
    | true =>
      simp only [hmem, if_true] at hw
      split at hw
      · cases hw
      · rename_i y hfill
        obtain ⟨hfilled, hok, hplace, htotal⟩ := fillHole_filled L hc hn hlt hfill
        exact hfilled.exit L (fun _ => rfl) hok hplace htotal hw
      · rename_i err₁ y hne hfill
        simp only [Option.some.injEq, Prod.mk.injEq] at hw
        obtain ⟨rfl, rfl, -⟩ := hw
        exact fillHole_failed L hc hlt hne hfill
  -- no hole: the write starts where it is
  · obtain ⟨hans, hfilled⟩ : g.holeAnswers S fuel = ([], g.place) ∧ g.Filled off content g :=
      hc.filled hlt
    have hgap : g.gap = false := decide_eq_false hlt
    rw [if_neg hlt] at hw
    apply hfilled.exit L (by rw [hgap]; exact nofun) _ _ _ hw
    · rw [hans]
      rfl
    · rw [hans]
    · rw [hans]
      rfl

/-- Going to the end of the file leaves the data alone. -/
theorem toEnd_content (L : WriteLaws S off content) (h : Handle Disk Pos) :
    content (h.toEnd S).disk (h.toEnd S).dentry = content h.disk h.dentry := by
  unfold Handle.toEnd
  split
  · exact L.setpos_content _ _ _ _ (BitVec.le_refl _)
  · rfl

/-- `fatfs_fo_write` on a descriptor whose cursor belongs to its offset leaves in one of these
    ways. -/
theorem foWrite_exit (L : WriteLaws S off content) {mem : Bool} {uio : Uio} {resid : BitVec 32}
    (hc : h.Coherent off) (hn : h.Near)
    (hw : foWrite S fuel mem h uio = some (err, h', resid)) :
    WriteExit S off content fuel mem (h.toEnd S) uio err h' := by
  obtain ⟨hc₁, hoff, hdentry, -⟩ := toEnd_spec L.toPlaceLaws hc
  apply writeAtOffset_exit L hc₁ _ hw
  rw [Handle.Near, hoff, hdentry]
  exact start_near hn

/-! ### What a write leaves -/

/-- A complete write: it succeeds, and the offset moves to the end of the request. -/
def WritesAll (S : FatSupport Disk Pos) (fuel : Nat) (mem : Bool) (h h' : Handle Disk Pos)
    (uio : Uio) : Prop :=
  (∃ resid, foWrite S fuel mem h uio = some (.ENOERR, h', resid)) ∧
    h'.offset.toNat = h.start.toNat + uio.data.length

/-- The bytes of the file, up to its size. -/
def Handle.bytes (content : Disk → Dentry → Nat → UInt8) (h : Handle Disk Pos) : List UInt8 :=
  (h.view content).bytes

/-- **A complete write** puts the bytes of the vectors at their place. -/
theorem writesAll_bytes (L : WriteLaws S off content) {mem : Bool} {uio : Uio}
    (hc : h.Coherent off) (hn : h.Near) (hw : WritesAll S fuel mem h h' uio) :
    h'.bytes content = writeAt 0 (h.bytes content) h.start.toNat uio.data := by
  obtain ⟨⟨resid, hw⟩, hall⟩ := hw
  obtain ⟨-, hoff, hdentry, -⟩ := toEnd_spec L.toPlaceLaws hc
  cases foWrite_exit L hc hn hw with
  | cutShort herr hmem hans hcut => exact absurd rfl herr
  | @completed _ _ d hok hgo hdone =>
    have hlen : d.length = uio.data.length := by
      have hmoved := hdone.offset
      rw [hoff] at hmoved
      omega
    have hd := hdone.full hlen
    subst hd
    show slice (content h'.disk h'.dentry) 0 h'.dentry.size.toNat
      = writeAt 0 (slice (content h.disk h.dentry) 0 h.dentry.size.toNat) h.start.toNat uio.data
    rw [← slice_overwrite, hdone.size, hdentry, hoff]
    congr 1
    ext k : 1
    rw [hdone.content k (by omega), toEnd_content L, hdentry, hoff]

/-- The descriptor for the same write once more, at the position `p` where the first one started.
    The caller seeks back when the offset has moved; a file that was opened for appending is not
    taken to its new end. -/
def Handle.backTo (S : FatSupport Disk Pos) (h : Handle Disk Pos) (p : BitVec 32) :
    Handle Disk Pos :=
  if h.offset = p then { h with append := false }
  else
    let (_, disk, pos) := S.setpos h.disk h.dentry h.pos p
    { h with disk, pos, append := false, offset := p }

/-- **A usable descriptor.**  After a write of `uio` that left `h'` of `h`, the cursor belongs to
    the offset again, no byte of the file outside the request has changed, and a complete write
    of the same bytes makes the file that it would have made at first. -/
structure Usable (off : Pos → Nat) (content : Disk → Dentry → Nat → UInt8)
    (h h' : Handle Disk Pos) (uio : Uio) : Prop where
  coherent : h'.Coherent off
  frame : ∀ k < h.dentry.size.toNat,
    k < h.start.toNat ∨ h.start.toNat + uio.data.length ≤ k →
      content h'.disk h'.dentry k = content h.disk h.dentry k
  retry : ∀ (S₁ S₂ : FatSupport Disk Pos) (fuel₁ fuel₂ : Nat) (mem₁ mem₂ : Bool)
    (h₁ h₂ : Handle Disk Pos), WriteLaws S₁ off content → WriteLaws S₂ off content →
    WritesAll S₁ fuel₁ mem₁ h h₁ uio → WritesAll S₂ fuel₂ mem₂ (h'.backTo S₂ h.start) h₂ uio →
      h₂.bytes content = h₁.bytes content

/-- When a failing write of `uio` is not cut short behind bytes that were taken: there is no
    memory for the zeros, or no call takes any byte, or the hole is filled and the only error in
    the loop over the vectors is `ENOSPC`. -/
def Spared (S : FatSupport Disk Pos) (fuel : Nat) (mem : Bool) (g : Handle Disk Pos)
    (uio : Uio) : Prop :=
  (g.gap = true ∧ mem = false) ∨
  (∀ a ∈ (g.holeAnswers S fuel).1 ++ g.dataAnswers S fuel uio, a.count = 0) ∨
  (g.holeAnswers S fuel).1.all Answer.isOk = true ∧
    (g.dataAnswers S fuel uio).all Answer.goesOn = true

/-- Going back to where the write started, as its caller does to write again. -/
theorem backTo_spec {S₂ : FatSupport Disk Pos} (L : WriteLaws S₂ off content) {p : BitVec 32}
    (hc : h.Coherent off) (hp : h.offset = p ∨ p ≤ h.dentry.size) :
    (h.backTo S₂ p).Coherent off ∧ (h.backTo S₂ p).start = p ∧
      (h.backTo S₂ p).dentry = h.dentry ∧
      (h.backTo S₂ p).bytes content = h.bytes content := by
  unfold Handle.backTo
  split
  · rename_i heq
    exact ⟨hc, heq, rfl, rfl⟩
  · rename_i hne
    have hle : p ≤ h.dentry.size := hp.resolve_left hne
    refine ⟨?_, rfl, rfl, ?_⟩
    · show off _ = min p.toNat h.dentry.size.toNat
      rw [L.setpos _ _ _ _ hle]
      rw [BitVec.le_def] at hle
      omega
    · show slice (content _ h.dentry) 0 _ = slice (content h.disk h.dentry) 0 _
      rw [L.setpos_content _ _ _ _ hle]

/-- A descriptor whose cursor belongs to its offset is usable, when the write changed nothing in
    the file outside the request but zeros in the hole. -/
theorem usable_of {uio : Uio} (hc : h.Coherent off) (hn : h.Near) (hc' : h'.Coherent off)
    (hframe : ∀ k < h.dentry.size.toNat,
      k < h.start.toNat ∨ h.start.toNat + uio.data.length ≤ k →
        content h'.disk h'.dentry k = content h.disk h.dentry k)
    (hgrow : h.dentry.size.toNat ≤ h'.dentry.size.toNat)
    (hsize : h'.dentry.size.toNat
      ≤ max h.dentry.size.toNat (h.start.toNat + uio.data.length))
    (hgap : ∀ k, h.dentry.size.toNat ≤ k → k < h'.dentry.size.toNat → k < h.start.toNat →
      content h'.disk h'.dentry k = 0)
    (hback : h'.offset = h.start ∨ h.start ≤ h'.dentry.size) :
    Usable off content h h' uio := by
  refine ⟨hc', hframe, fun S₁ S₂ fuel₁ fuel₂ mem₁ mem₂ h₁ h₂ L₁ L₂ hfirst hretry => ?_⟩
  obtain ⟨hcb, hstart, hdentry, hbytes⟩ := backTo_spec L₂ hc' hback
  have hnb : (h'.backTo S₂ h.start).Near := by
    have hoff : (h'.backTo S₂ h.start).offset = h.start := by
      unfold Handle.backTo
      split
      · assumption
      · rfl
    rw [Handle.Near, hoff, hdentry]
    rcases start_near hn with hle | hlt
    · rw [BitVec.le_def] at hle
      exact Or.inl (by rw [BitVec.le_def]; omega)
    · exact Or.inr hlt
  rw [writesAll_bytes L₂ hcb hnb hretry, writesAll_bytes L₁ hc hn hfirst, hstart, hbytes]
  exact writeAt_again 0 uio.data hframe hgrow hsize hgap

/-- **A failing write.**  When `fatfs_fo_write` returns an error, the descriptor is usable
    exactly when the write was not cut short behind bytes that were taken. -/
theorem failed_write (L : WriteLaws S off content) {mem : Bool} {uio : Uio} {resid : BitVec 32}
    (hc : h.Coherent off) (hn : h.Near)
    (hw : foWrite S fuel mem h uio = some (err, h', resid)) (herr : err ≠ .ENOERR) :
    Usable off content h h' uio ↔ Spared S fuel mem (h.toEnd S) uio := by
  obtain ⟨hcg, hoff, hdentry, -⟩ := toEnd_spec L.toPlaceLaws hc
  have hdata := toEnd_content L h
  cases foWrite_exit L hc hn hw with
  | noMemory hgap hmem =>
    refine iff_of_true ?_ (Or.inl ⟨hgap, hmem⟩)
    apply usable_of hc hn hcg (fun k _ _ => congrFun hdata k) _ _ _ (Or.inl hoff)
    · exact Nat.le_of_eq (by rw [hdentry])
    · rw [hdentry]
      omega
    · intro k hge hlt
      rw [hdentry] at hlt
      omega
  | cutShort herr hmem hans hcut =>
    have hcursor := hcut.cursor
    have hsize := hcut.size
    rw [hcg, hoff, hdentry] at hcursor
    rw [hdentry] at hsize
    have hzero : total (((h.toEnd S).holeAnswers S fuel).1 ++ (h.toEnd S).dataAnswers S fuel uio)
        = 0 ↔ h'.Coherent off := by
      rw [Handle.Coherent, hcursor, hcut.offset, hoff, hsize]
      omega
    constructor
    · intro hu
      exact Or.inr (Or.inl (total_eq_zero.mp (hzero.mpr hu.coherent)))
    · intro hs
      have hnone : total (((h.toEnd S).holeAnswers S fuel).1
          ++ (h.toEnd S).dataAnswers S fuel uio) = 0 := by
        rcases hs with ⟨hgap, hno⟩ | hnone | ⟨hok, hgo⟩
        · rw [hmem hgap] at hno
          cases hno
        · exact total_eq_zero.mpr hnone
        · rcases hans with hbad | hbad
          · rw [hok] at hbad
            cases hbad
          · rw [hgo] at hbad
            cases hbad
      have hframe := hcut.frame
      rw [hoff, hdata, hdentry] at hframe
      apply usable_of hc hn (hzero.mp hnone) _ _ _ _ (Or.inl (hcut.offset.trans hoff))
      · exact hframe
      · exact Nat.le_of_eq (by rw [hsize])
      · rw [hsize]
        omega
      · intro k hge hlt
        rw [hsize] at hlt
        omega
  | @completed _ _ d hok hgo hdone =>
    refine iff_of_true ?_ (Or.inr (Or.inr ⟨hok, hgo⟩))
    have hcursor := hdone.cursor
    have hoffset := hdone.offset
    have hsize := hdone.size
    have hlen := hdone.length
    have hcontent := hdone.content
    rw [hoff] at hcursor hoffset
    rw [hoff, hdentry] at hsize
    rw [hoff, hdata, hdentry] at hcontent
    apply usable_of hc hn
    · rw [Handle.Coherent, hcursor, hoffset, hsize]
      omega
    · -- below the old end, outside the request
      intro k hk hout
      rw [hcontent k (by omega)]
      rcases hout with hlt | hge
      · rw [overwrite_of_lt _ _ hlt, overwrite_of_lt _ _ hk]
      · rw [overwrite_of_ge _ (by omega), overwrite_of_lt _ _ hk]
    · omega
    · omega
    · -- in the hole
      intro k hge hlt hbefore
      rw [hcontent k (by omega), overwrite_of_lt _ _ hbefore,
        overwrite_of_mem _ hge (by simp; omega), List.getElem_replicate]
    · refine Or.inr ?_
      rw [BitVec.le_def]
      omega

/-! ### A disk with a bad sector -/

/-- A file whose data can be transferred up to the offset `n` only. -/
def badSector (n : BitVec 32) : FatSupport (Nat → UInt8) (BitVec 32) where
  initpos _ _ := 0
  setpos d _ _ m := (.ENOERR, d, m)
  readData d _ p l :=
    let k := min l.toNat (n.toNat - p.toNat)
    (if k = l.toNat then .ENOERR else Err.EIO, d, p + BitVec.ofNat 32 k, slice d p.toNat k)
  writeData d e p buf :=
    let k := min buf.length (n.toNat - p.toNat)
    (if k = buf.length then .ENOERR else Err.EIO, overwrite d p.toNat (buf.take k), e,
      p + BitVec.ofNat 32 k, BitVec.ofNat 32 k)
  truncFile d e := (d, { e with size := 0 })

/-- The data of the file, when the disk has just one. -/
def sectorData (d : Nat → UInt8) (_ : Dentry) : Nat → UInt8 := d

/-- The disk with a bad sector obeys the laws, so that they can be met with a failing write. -/
theorem badSector_laws (n : BitVec 32) : WriteLaws (badSector n) BitVec.toNat sectorData := by
  -- a transfer ends at the bad sector
  have hmoved : ∀ (p : BitVec 32) (m : Nat),
      (p + BitVec.ofNat 32 (min m (n.toNat - p.toNat))).toNat
        = p.toNat + min m (n.toNat - p.toNat) ∧
      (BitVec.ofNat 32 (min m (n.toNat - p.toNat))).toNat = min m (n.toNat - p.toNat) := by
    intro p m
    have hn := n.isLt
    have hp := p.isLt
    rw [BitVec.toNat_add, BitVec.toNat_ofNat]
    constructor <;> omega
  refine ⟨⟨⟨fun d e => rfl, fun d e p m _ => rfl⟩, ?_, ?_, fun d e => rfl⟩, fun p => p.isLt,
    fun d e p m _ => rfl, ?_, fun d e m => rfl⟩
  · intro d e p l err d' p' buf hr
    simp only [badSector, Prod.mk.injEq] at hr
    obtain ⟨-, -, rfl, rfl⟩ := hr
    rw [length_slice]
    exact ⟨(hmoved p l.toNat).1, Nat.min_le_left _ _⟩
  · intro d e p buf err d' e' p' l hw
    simp only [badSector, Prod.mk.injEq] at hw
    obtain ⟨-, -, rfl, rfl, rfl⟩ := hw
    rw [(hmoved p buf.length).2]
    exact ⟨(hmoved p buf.length).1, Nat.min_le_left _ _, rfl⟩
  · intro d e p buf err d' e' p' l hw k _
    simp only [badSector, Prod.mk.injEq] at hw
    obtain ⟨-, rfl, rfl, rfl, rfl⟩ := hw
    rw [(hmoved p buf.length).2]
    rfl

/-- A descriptor at the start of a file of four bytes. -/
def fourBytes : Handle (Nat → UInt8) (BitVec 32) :=
  ⟨fun _ => 7, ⟨4, false, false, 2⟩, 0, false, 0⟩

/-- A request to write three bytes, from a single vector. -/
def someBytes : Uio := ⟨[⟨[1, 2, 3], Iovec.three_lt⟩], 3⟩

/-- A write that is refused at once leaves the descriptor usable, with nothing stored. -/
theorem failed_write_refused : ∃ h' : Handle (Nat → UInt8) (BitVec 32),
    foWrite (badSector 0) 4 true fourBytes someBytes = some ( Err.EIO, h', 3) ∧
      Usable BitVec.toNat sectorData fourBytes h' someBytes := by
  have hc : fourBytes.Coherent BitVec.toNat := by decide
  have hn : fourBytes.Near := Or.inl (by decide)
  have hs : Spared (badSector 0) 4 true (fourBytes.toEnd (badSector 0)) someBytes :=
    Or.inr (Or.inl (by decide))
  obtain ⟨h', hw⟩ : ∃ h', foWrite (badSector 0) 4 true fourBytes someBytes
      = some ( Err.EIO, h', 3) := ⟨_, rfl⟩
  exact ⟨h', hw, (failed_write (badSector_laws 0) hc hn hw (by decide)).mpr hs⟩

/-- The third byte is in the bad sector: the write of three bytes at the start fails behind the
    second one, and the cursor stays there.  Once the sector is good the same write, which
    succeeds, goes to the wrong place. -/
theorem third_byte_fails : ∃ h₁ h₂ : Handle (Nat → UInt8) (BitVec 32),
    fourBytes.Coherent BitVec.toNat ∧ fourBytes.Near ∧
    foWrite (badSector 2) 4 true fourBytes someBytes = some ( Err.EIO, h₁, 3) ∧
    ¬Usable BitVec.toNat sectorData fourBytes h₁ someBytes ∧
    WritesAll (badSector 8) 4 true (h₁.backTo (badSector 8) 0) h₂ someBytes ∧
    h₂.bytes sectorData = [1, 2, 1, 2] := by
  refine ⟨_, _, rfl, Or.inl (by decide), rfl, ?_, ⟨⟨_, rfl⟩, by decide⟩, by decide⟩
  intro hu
  exact absurd hu.coherent (by decide)

end Ecos.Fat
