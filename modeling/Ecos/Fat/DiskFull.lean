import Ecos.Fat.FailedWrite

namespace Ecos.Fat

open Ecos.Lib

/-!
# Writes to a full disk

What `fatfs_fo_write` stores when the only error of `fatfs_write_data` is `ENOSPC`.  The calls of
`fatfs_write_data` are those that the function makes on a disk that logs them.

* `SpaceLaws` — the answers of the support code: something was written, or there is no space for
  all of it; what it counts is what it stores;
* `answers_space`, `vecAnswers_space` — the calls for one buffer, and for the vectors;
* `StoresPrefix` — the bytes stored are a prefix of the request, and the descriptor says how long
  it is;
* `Handle.Ends`, `Handle.FitsWords` — nothing is left to write behind the vector where the space
  ended, and the end of what was stored fits the signed words that hold it;
* `full_disk` — the first is so exactly when the others are.

`ENOSPC` ends the loop over one vector only: the loop over the vectors goes on with the next one.
-/

/-! ### The support code -/

/-- The support code, when its only error is that the disk is full. -/
structure SpaceLaws {Disk Pos : Type} (S : FatSupport Disk Pos) (off : Pos → Nat)
    (content : Disk → Dentry → Nat → UInt8) : Prop extends WriteLaws S off content where
  /-- Some bytes were written, or there is no space for all of them. -/
  answer : ∀ {d e p buf err d' e' p' l}, buf ≠ [] →
    S.writeData d e p buf = (err, d', e', p', l) →
    (err = .ENOERR ∧ 0 < l.toNat) ∨ (err = .ENOSPC ∧ l.toNat < buf.length)
  /-- The bytes that are counted are stored, and no others. -/
  exact : ∀ {d e p buf err d' e' p' l}, S.writeData d e p buf = (err, d', e', p', l) →
    content d' e' = overwrite (content d e) (off p) (buf.take l.toNat)

variable {Disk Pos : Type} {S : FatSupport Disk Pos} {off : Pos → Nat}
  {content : Disk → Dentry → Nat → UInt8} {h h' g : Handle Disk Pos} {x x' : Xfer Disk Pos}
  {w w' : Place Disk Pos} {fuel : Nat} {err : Err} {buf : List UInt8}

/-- The error that a loop is left with: the one of its last call, or the one before the loop. -/
def lastErr (err : Err) (as : List Answer) : Err := (as.getLast?.map Answer.err).getD err

/-- Without an answer the error is what it was. -/
@[simp] theorem lastErr_nil (err : Err) : lastErr err [] = err := rfl

/-- An answer sets the error. -/
@[simp] theorem lastErr_cons (err : Err) (a : Answer) (as : List Answer) :
    lastErr err (a :: as) = lastErr a.err as := by
  cases as with
  | nil => rfl
  | cons b bs => simp [lastErr, List.getLast?_cons]

/-- The error of two lists of answers is that of the second one, after the first. -/
theorem lastErr_append (err : Err) (as bs : List Answer) :
    lastErr err (as ++ bs) = lastErr (lastErr err as) bs := by
  induction as generalizing err with
  | nil => rfl
  | cons a as ih =>
    rw [List.cons_append, lastErr_cons, lastErr_cons]
    exact ih a.err

/-- Calls without an error leave none, so that the hole does not decide the result. -/
theorem lastErr_of_ok {as : List Answer} (h : as.all Answer.isOk = true) :
    lastErr .ENOERR as = .ENOERR := by
  induction as with
  | nil => rfl
  | cons a as ih =>
    rw [List.all_cons, Bool.and_eq_true] at h
    have ha : a.err = .ENOERR := of_decide_eq_true h.1
    rw [lastErr_cons, ha]
    exact ih h.2

/-! ### One buffer -/

/-- How the calls for a request of `n` bytes end: all of it was written, or the last call found
    no more space. -/
inductive SpaceEnd (as : List Answer) (n : Nat) : Prop
  | all (hok : as.all Answer.isOk = true) (htotal : total as = n)
  | full (oks : List Answer) (k : Nat) (has : as = oks ++ [⟨.ENOSPC, k⟩])
    (hok : oks.all Answer.isOk = true) (htotal : total as < n)

/-- A call that succeeds, in front of others, adds its bytes to theirs. -/
theorem SpaceEnd.cons {as : List Answer} {n : Nat} (h : SpaceEnd as n) {a : Answer}
    (ha : a.err = .ENOERR) : SpaceEnd (a :: as) (a.count + n) := by
  have hok : a.isOk = true := decide_eq_true ha
  cases h with
  | all hall htotal =>
    refine .all ?_ ?_
    · rw [List.all_cons, hok, hall]
      rfl
    · rw [total_cons, htotal]
  | full oks k has hall htotal =>
    refine .full (a :: oks) k ?_ ?_ ?_
    · rw [has]
      rfl
    · rw [List.all_cons, hok, hall]
      rfl
    · rw [total_cons]
      omega

/-- **The calls for one buffer** end, and store a beginning of it. -/
theorem answers_space (L : SpaceLaws S off content) (w : Place Disk Pos)
    (hfuel : buf.length < fuel) :
    SpaceEnd (S.answers fuel w buf).1 buf.length ∧
      Put off content w (S.answers fuel w buf).2 (buf.take (total (S.answers fuel w buf).1))
        (total (S.answers fuel w buf).1) := by
  induction fuel generalizing w buf with
  | zero => omega
  | succ fuel ih =>
    by_cases hnil : buf = []
    · simp only [FatSupport.answers, hnil, if_true]
      exact ⟨.all rfl rfl, .refl w _⟩
    rcases hw : S.writeData w.disk w.dentry w.cursor buf with ⟨err, disk, dentry, cursor, l⟩
    obtain ⟨hmoved, hcount, hsize⟩ := L.writeData hw
    have htake : (buf.take l.toNat).length = l.toNat := by
      rw [List.length_take]
      omega
    have hput : Put off content w ⟨disk, dentry, cursor⟩ (buf.take l.toNat) l.toNat := by
      refine ⟨Nat.le_of_eq htake, ?_, hsize, fun k _ => ?_⟩
      · rw [htake]
        exact hmoved
      · exact congrFun (L.exact hw) k
    rcases L.answer hnil hw with ⟨rfl, hpos⟩ | ⟨rfl, hless⟩
    · -- the loop goes on with the rest of the buffer
      have hdrop : (buf.drop l.toNat).length = buf.length - l.toNat := List.length_drop
      obtain ⟨hend, hrest⟩ := ih ⟨disk, dentry, cursor⟩
        (by omega : (buf.drop l.toNat).length < fuel)
      have hall : l.toNat + (buf.drop l.toNat).length = buf.length := by omega
      rw [answers_next hnil hw, total_cons, List.take_add]
      refine ⟨?_, ?_⟩
      · rw [← hall]
        exact hend.cons rfl
      · apply hput.trans hrest (Nat.le_add_right _ _)
        exact Nat.le_of_eq (congrArg (· + _) htake)
    · rw [answers_fail hnil hw (by decide)]
      refine ⟨.full [] l.toNat rfl rfl ?_, ?_⟩
      · simpa using hless
      · simpa using hput

/-- The loop that fills the hole makes these calls, and returns the last of their errors. -/
theorem fillHole_space (L : SpaceLaws S off content) (hfuel : buf.length < fuel) :
    ∃ x', fillHole S fuel x buf = some (lastErr .ENOERR (S.answers fuel x.place buf).1, x') ∧
      (S.answers fuel x.place buf).2 = x'.place ∧ x'.resid = x.resid := by
  induction fuel generalizing x buf with
  | zero => omega
  | succ fuel ih =>
    by_cases hnil : buf = []
    · exact ⟨x, by simp [fillHole, FatSupport.answers, hnil], by simp [FatSupport.answers, hnil],
        rfl⟩
    rcases hw : S.writeData x.disk x.dentry x.cursor buf with ⟨err, disk, dentry, cursor, l⟩
    obtain ⟨-, hcount, -⟩ := L.writeData hw
    simp only [fillHole, hnil, if_false, hw]
    rcases L.answer hnil hw with ⟨rfl, hpos⟩ | ⟨rfl, -⟩
    · have hdrop : (buf.drop l.toNat).length = buf.length - l.toNat := List.length_drop
      obtain ⟨x', hrest, hplace, hresid⟩ := ih (x := { x with disk, dentry, cursor })
        (by omega : (buf.drop l.toNat).length < fuel)
      rw [answers_next (w := x.place) hnil hw, lastErr_cons]
      exact ⟨x', hrest, hplace, hresid⟩
    · rw [answers_fail (w := x.place) hnil hw (by decide)]
      exact ⟨_, rfl, rfl, rfl⟩

/-- The loop that writes one vector makes these calls, and goes on to the next vector. -/
theorem writeVec_space (L : SpaceLaws S off content) (err : Err) (hfuel : buf.length < fuel) :
    ∃ x', writeVec S fuel err x buf
        = some (.next (lastErr err (S.answers fuel x.place buf).1), x') ∧
      (S.answers fuel x.place buf).2 = x'.place ∧
      x'.resid = x.resid - BitVec.ofNat 32 (total (S.answers fuel x.place buf).1) := by
  induction fuel generalizing x err buf with
  | zero => omega
  | succ fuel ih =>
    by_cases hnil : buf = []
    · exact ⟨x, by simp [writeVec, FatSupport.answers, hnil], by simp [FatSupport.answers, hnil],
        by simp [FatSupport.answers, hnil]⟩
    rcases hw : S.writeData x.disk x.dentry x.cursor buf with ⟨err₁, disk, dentry, cursor, l⟩
    obtain ⟨-, hcount, -⟩ := L.writeData hw
    simp only [writeVec, hnil, if_false, hw]
    rcases L.answer hnil hw with ⟨rfl, hpos⟩ | ⟨rfl, -⟩
    · have hdrop : (buf.drop l.toNat).length = buf.length - l.toNat := List.length_drop
      obtain ⟨x', hrest, hplace, hresid⟩ := ih
        (x := ⟨disk, dentry, cursor, x.pos + l, x.resid - l⟩) .ENOERR
        (by omega : (buf.drop l.toNat).length < fuel)
      rw [answers_next (w := x.place) hnil hw, lastErr_cons, total_cons]
      refine ⟨x', hrest, hplace, ?_⟩
      -- what two writes took is taken from the residue in one
      have hsub : ∀ a b c : BitVec 32, a - b - c = a - (b + c) := by
        intro a b c
        bv_omega
      rw [hresid, BitVec.ofNat_add]
      simp only [BitVec.ofNat_toNat, BitVec.setWidth_eq]
      exact hsub _ _ _
    -- an answer with an error leaves the vector
    · rw [answers_fail (w := x.place) hnil hw (by decide)]
      refine ⟨_, rfl, rfl, ?_⟩
      simp

/-! ### The vectors -/

/-- `ENOSPC` comes up only where nothing is left to write: behind the vector whose calls end with
    it, all vectors are empty. -/
def FatSupport.SpaceOnlyLast (S : FatSupport Disk Pos) (fuel : Nat) :
    Place Disk Pos → List Iovec → Prop
  | _, [] => True
  | w, v :: vs =>
    if (S.answers fuel w v.buf).1.all Answer.isOk then
      S.SpaceOnlyLast fuel (S.answers fuel w v.buf).2 vs
    else ∀ v' ∈ vs, v'.buf = []

/-- No call was made after one that reported `ENOSPC`, as the comment in the code wants it. -/
def Stops (as : List Answer) : Prop := ∀ a ∈ as.dropLast, a.err ≠ .ENOSPC

/-- Without answers there is nothing to stop after. -/
theorem stops_nil : Stops [] := fun _ ha => nomatch ha

/-- An answer without an error does not report a full disk. -/
theorem ne_space_of_ok {as : List Answer} (h : as.all Answer.isOk = true) {a : Answer}
    (ha : a ∈ as) : a.err ≠ .ENOSPC := by
  have hok : a.err = .ENOERR := of_decide_eq_true (List.all_eq_true.mp h a ha)
  rw [hok]
  exact nofun

/-- Calls that succeed, in front of others, do not matter for where the calls stop. -/
theorem stops_append {as bs : List Answer} (h : as.all Answer.isOk = true) :
    Stops (as ++ bs) ↔ Stops bs := by
  by_cases hnil : bs = []
  · subst hnil
    rw [List.append_nil]
    refine iff_of_true (fun a ha => ?_) (fun a ha => nomatch ha)
    exact ne_space_of_ok h (List.dropLast_subset as ha)
  · unfold Stops
    rw [List.dropLast_append_of_ne_nil hnil]
    constructor
    · intro hstop a ha
      exact hstop a (List.mem_append_right as ha)
    · intro hstop a ha
      rcases List.mem_append.mp ha with hfront | hback
      · exact ne_space_of_ok h hfront
      · exact hstop a hback

/-- Answers that end with a full disk, as they should, stop there: only the last one can report
    it. -/
theorem SpaceEnd.stops {as : List Answer} {n : Nat} (h : SpaceEnd as n) : Stops as := by
  cases h with
  | all hok htotal => exact fun a ha => ne_space_of_ok hok (List.dropLast_subset as ha)
  | full oks k has hok htotal =>
    intro a ha
    rw [has, List.dropLast_concat] at ha
    exact ne_space_of_ok hok ha

/-- None of the answers makes the function return, since the disk does not fail otherwise. -/
theorem SpaceEnd.goesOn {as : List Answer} {n : Nat} (h : SpaceEnd as n) :
    as.all Answer.goesOn = true := by
  have hgo : ∀ bs : List Answer, bs.all Answer.isOk = true → bs.all Answer.goesOn = true := by
    intro bs hok
    rw [List.all_eq_true] at hok ⊢
    intro a ha
    exact decide_eq_true (Or.inl (of_decide_eq_true (hok a ha)))
  cases h with
  | all hok htotal => exact hgo as hok
  | full oks k has hok htotal =>
    rw [has, List.all_append, hgo oks hok]
    rfl

/-- The calls end with success exactly when everything was written. -/
theorem SpaceEnd.lastErr {as : List Answer} {n : Nat} (h : SpaceEnd as n) :
    (lastErr .ENOERR as = .ENOSPC ↔ total as < n) ∧ total as ≤ n := by
  cases h with
  | all hok htotal =>
    rw [lastErr_of_ok hok, htotal]
    exact ⟨iff_of_false nofun (Nat.lt_irrefl n), Nat.le_refl n⟩
  | full oks k has hok htotal =>
    refine ⟨iff_of_true ?_ htotal, Nat.le_of_lt htotal⟩
    rw [has, lastErr_append, lastErr_cons, lastErr_nil]

/-- Answers without an error can go before, with their bytes added. -/
theorem SpaceEnd.append {as bs : List Answer} {n : Nat} (hok : as.all Answer.isOk = true)
    (h : SpaceEnd bs n) : SpaceEnd (as ++ bs) (total as + n) := by
  induction as with
  | nil => simpa using h
  | cons a as ih =>
    rw [List.all_cons, Bool.and_eq_true] at hok
    rw [List.cons_append, total_cons, Nat.add_assoc]
    exact (ih hok.2).cons (of_decide_eq_true hok.1)

/-- The calls for a vector, in front of those for the others, whether or not it ended with a full
    disk. -/
theorem vecAnswers_cons (L : SpaceLaws S off content) (w : Place Disk Pos) (v : Iovec)
    (vs : List Iovec) (hfuel : 2 ^ 31 ≤ fuel) :
    S.vecAnswers fuel w (v :: vs) = (S.answers fuel w v.buf).1
      ++ S.vecAnswers fuel (S.answers fuel w v.buf).2 vs := by
  have hv := v.len_lt
  have hend := (answers_space L w (by omega : v.buf.length < fuel)).1
  exact vecAnswers_next vs hend.goesOn

/-- A buffer that is not empty is written by at least one call. -/
theorem answers_ne_nil (hfuel : 0 < fuel) (hne : buf ≠ []) : (S.answers fuel w buf).1 ≠ [] := by
  obtain ⟨n, rfl⟩ := Nat.exists_eq_add_of_lt hfuel
  rcases hw : S.writeData w.disk w.dentry w.cursor buf with ⟨err, disk, dentry, cursor, l⟩
  simp only [FatSupport.answers, hne, if_false, hw]
  split
  · exact List.cons_ne_nil _ _
  · exact List.cons_ne_nil _ _

/-- No call is made exactly when all vectors are empty. -/
theorem vecAnswers_eq_nil (L : SpaceLaws S off content) {vs : List Iovec}
    (hfuel : 2 ^ 31 ≤ fuel) : S.vecAnswers fuel w vs = [] ↔ ∀ v ∈ vs, v.buf = [] := by
  induction vs generalizing w with
  | nil => simp [FatSupport.vecAnswers]
  | cons v vs ih =>
    rw [vecAnswers_cons L w v vs hfuel, List.append_eq_nil_iff, ih, List.forall_mem_cons]
    refine and_congr_left fun _ => ⟨fun hnone => ?_, fun hnil => ?_⟩
    · by_contra hne
      exact answers_ne_nil (by omega) hne hnone
    · obtain ⟨n, rfl⟩ : ∃ n, fuel = n + 1 := ⟨fuel - 1, by omega⟩
      simp only [FatSupport.answers, hnil, if_true]

/-- **The calls for the vectors** stop at the first `ENOSPC` exactly when nothing is left to write
    behind it. -/
theorem spaceOnlyLast_iff (L : SpaceLaws S off content) {vs : List Iovec}
    (hfuel : 2 ^ 31 ≤ fuel) :
    S.SpaceOnlyLast fuel w vs ↔ Stops (S.vecAnswers fuel w vs) := by
  induction vs generalizing w with
  | nil => exact iff_of_true trivial stops_nil
  | cons v vs ih =>
    have hv := v.len_lt
    obtain ⟨hend, -⟩ := answers_space L w (by omega : v.buf.length < fuel)
    rw [vecAnswers_cons L w v vs hfuel]
    unfold FatSupport.SpaceOnlyLast
    by_cases hok : (S.answers fuel w v.buf).1.all Answer.isOk = true
    · rw [if_pos hok, ih, stops_append hok]
    · rw [if_neg hok, ← vecAnswers_eq_nil L (w := (S.answers fuel w v.buf).2) hfuel]
      constructor
      · intro hnone
        rw [hnone, List.append_nil]
        exact hend.stops
      · -- the call that found no space is not the last one
        intro hstop
        by_contra hmore
        cases hend with
        | all hall htotal => exact hok hall
        | full oks k has hall htotal =>
          unfold Stops at hstop
          rw [List.dropLast_append_of_ne_nil hmore, has] at hstop
          refine hstop ⟨.ENOSPC, k⟩ ?_ rfl
          simp

/-- **The vectors.**  When the disk is full in the last vector only, the answers end as they
    should. -/
theorem vecAnswers_space (L : SpaceLaws S off content) {vs : List Iovec} (hfuel : 2 ^ 31 ≤ fuel)
    (hlast : S.SpaceOnlyLast fuel w vs) :
    SpaceEnd (S.vecAnswers fuel w vs) (vs.flatMap Iovec.buf).length := by
  induction vs generalizing w with
  | nil => exact .all rfl rfl
  | cons v vs ih =>
    have hv := v.len_lt
    obtain ⟨hend, -⟩ := answers_space L w (by omega : v.buf.length < fuel)
    rw [vecAnswers_cons L w v vs hfuel, List.flatMap_cons, List.length_append]
    unfold FatSupport.SpaceOnlyLast at hlast
    by_cases hok : (S.answers fuel w v.buf).1.all Answer.isOk = true
    · rw [if_pos hok] at hlast
      cases hend with
      | all hall htotal =>
        rw [← htotal]
        exact (ih hlast).append hall
      | full oks k has hall htotal =>
        rw [has, List.all_append, hall] at hok
        cases hok
    · rw [if_neg hok] at hlast
      have hempty : vs.flatMap Iovec.buf = [] := List.flatMap_eq_nil_iff.mpr hlast
      rw [(vecAnswers_eq_nil L hfuel).mpr hlast, hempty, List.append_nil]
      exact hend

/-- **The loop over the vectors** makes these calls, and stores what they count; when `ENOSPC`
    comes up only at the end, that is a beginning of the request. -/
theorem writeVecs_space (L : SpaceLaws S off content) (err : Err) (vs : List Iovec)
    (hfuel : 2 ^ 31 ≤ fuel) :
    ∃ x' d, writeVecs S fuel err x vs
        = some (.next (lastErr err (S.vecAnswers fuel x.place vs)), x') ∧
      x'.resid = x.resid - BitVec.ofNat 32 d.length ∧
      Put off content x.place x'.place d d.length ∧
      d.length = total (S.vecAnswers fuel x.place vs) ∧
      (S.SpaceOnlyLast fuel x.place vs → d <+: vs.flatMap Iovec.buf) := by
  induction vs generalizing x err with
  | nil =>
    exact ⟨x, [], rfl, (BitVec.sub_zero _).symm, .refl _ _, rfl, fun _ => List.nil_prefix⟩
  | cons v vs ih =>
    have hv := v.len_lt
    have hlt : v.buf.length < fuel := by omega
    obtain ⟨hend, hput⟩ := answers_space L x.place hlt
    obtain ⟨y, hvec, hplace, hresid⟩ := writeVec_space (x := x) L err hlt
    obtain ⟨x', d, hrest, hresid', hput', hlen, hbegin⟩ :=
      ih (x := y) (lastErr err (S.answers fuel x.place v.buf).1)
    have htake : (v.buf.take (total (S.answers fuel x.place v.buf).1)).length
        = total (S.answers fuel x.place v.buf).1 := by
      rw [List.length_take]
      have hle := hend.lastErr.2
      omega
    rw [hplace] at hput
    have hall := vecAnswers_cons L x.place v vs hfuel
    rw [hplace] at hall
    refine ⟨x', v.buf.take (total (S.answers fuel x.place v.buf).1) ++ d, ?_, ?_, ?_, ?_, ?_⟩
    · simp only [writeVecs, hvec, hrest]
      rw [hall, lastErr_append]
    · have hsub : ∀ a b c : BitVec 32, a - b - c = a - (b + c) := by
        intro a b c
        bv_omega
      rw [hresid', hresid, List.length_append, htake, BitVec.ofNat_add]
      exact hsub _ _ _
    · rw [List.length_append, htake]
      apply hput.trans hput' (Nat.le_add_right _ _)
      exact Nat.le_of_eq (congrArg (· + _) htake)
    · rw [hall, total_append, List.length_append, htake, hlen]
    · intro hlast
      rw [List.flatMap_cons]
      unfold FatSupport.SpaceOnlyLast at hlast
      by_cases hok : (S.answers fuel x.place v.buf).1.all Answer.isOk = true
      · -- the vector was written, and the rest is a beginning of the rest
        rw [if_pos hok, hplace] at hlast
        cases hend with
        | all hok' htotal =>
          rw [htotal, List.take_length]
          exact (List.prefix_append_right_inj v.buf).mpr (hbegin hlast)
        | full oks k has hok' htotal =>
          rw [has, List.all_append, hok'] at hok
          cases hok
      · rw [if_neg hok] at hlast
        have hnone : d = [] := by
          apply List.length_eq_zero_iff.mp
          rw [hlen, (vecAnswers_eq_nil L hfuel).mpr hlast]
          rfl
        rw [hnone, List.append_nil]
        exact (List.take_prefix _ _).trans (List.prefix_append _ _)

/-! ### The write -/

/-- **The bytes stored are a prefix of the request.**  A write of `uio` that left `h'` of `h`, with
    the calls `as` in its log, stopped at the first `ENOSPC`; it stored a prefix of the request at
    the write position, and changed nothing else that was in the file or lies behind that position;
    `uio_resid` dropped and `f_offset` rose by its length, both as the signed words that they are;
    and the result is `ENOSPC` exactly when the request is longer. -/
structure StoresPrefix (content : Disk → Dentry → Nat → UInt8) (h h' : Handle Disk Pos)
    (uio : Uio) (err : Err) (resid : BitVec 32) (as : List Answer) : Prop where
  stops : Stops as
  stored : ∃ d, d <+: uio.data ∧
    (∀ k, k < h.dentry.size.toNat ∨ h.start.toNat ≤ k →
      content h'.disk h'.dentry k = overwrite (content h.disk h.dentry) h.start.toNat d k) ∧
    resid.toInt = uio.resid.toInt - d.length ∧
    h'.offset.toInt = h.start.toInt + d.length ∧
    (err = .ENOSPC ↔ d.length < uio.data.length)

variable (S) in
/-- When nothing is left to write where the space ends: `ENOSPC` comes up only behind the last byte
    that there is to write.  When there is no memory for the zeros of a hole, the request must be
    empty; when there is no space for them, it must not be. -/
def Handle.Ends (fuel : Nat) (mem : Bool) (g : Handle Disk Pos) (uio : Uio) : Prop :=
  if g.gap ∧ mem = false then uio.data = []
  else if (g.holeAnswers S fuel).1.all Answer.isOk then
    S.SpaceOnlyLast fuel (g.holeAnswers S fuel).2 uio.iov
  else uio.data ≠ []

variable (S) in
/-- The number of bytes of the request for which `fatfs_write_data` finds space. -/
def Handle.taken (fuel : Nat) (mem : Bool) (g : Handle Disk Pos) (uio : Uio) : Nat :=
  if g.gap ∧ mem = false then 0 else total (g.dataAnswers S fuel uio)

variable (S) in
/-- `f_offset` is an `off_t` and `uio_resid` an `ssize_t`: the position behind the bytes that find
    space stays below `2 ^ 31`, and what `uio_resid` is without them does not fall below `-2 ^ 31`
    (it does not when `uio_resid` was the length of the request). -/
structure Handle.FitsWords (fuel : Nat) (mem : Bool) (g : Handle Disk Pos) (uio : Uio) : Prop where
  offset : g.offset.toInt + g.taken S fuel mem uio < 2 ^ 31
  resid : -2 ^ 31 ≤ uio.resid.toInt - g.taken S fuel mem uio

/-- A word that does not wrap around as an unsigned number rises as a signed one exactly when it
    does not become negative. -/
theorem toInt_rise {p q : BitVec 32} {n : Nat} (h : q.toNat = p.toNat + n) :
    q.toInt = p.toInt + n ↔ p.toInt + n < 2 ^ 31 := by
  have hq := q.isLt
  rw [BitVec.toInt_eq_toNat_cond, BitVec.toInt_eq_toNat_cond]
  split <;> split <;> omega

/-- There is only one number by which the signed offset can rise when the word has gone up by it. -/
theorem eq_of_toInt_rise {p q : BitVec 32} {n k : Nat} (h : q.toNat = p.toNat + n)
    (hk : q.toInt = p.toInt + k) : k = n := by
  have hq := q.isLt
  rw [BitVec.toInt_eq_toNat_cond, BitVec.toInt_eq_toNat_cond] at hk
  split at hk <;> split at hk <;> omega

/-- A word drops as a signed number exactly when it does not wrap around. -/
theorem toInt_drop (r : BitVec 32) {n : Nat} (hn : n < 2 ^ 32) :
    (r - BitVec.ofNat 32 n).toInt = r.toInt - n ↔ -2 ^ 31 ≤ r.toInt - n := by
  have hr := r.isLt
  have hsub : (r - BitVec.ofNat 32 n).toNat = (2 ^ 32 - n + r.toNat) % 2 ^ 32 := by
    rw [BitVec.toNat_sub, BitVec.toNat_ofNat, Nat.mod_eq_of_lt hn]
  rw [BitVec.toInt_eq_toNat_cond, BitVec.toInt_eq_toNat_cond, hsub]
  split <;> split <;> omega

/-- When no byte finds space, nothing moves, and the words hold what they should. -/
theorem fits_of_none {mem : Bool} {uio : Uio} (hnone : g.taken S fuel mem uio = 0) :
    g.FitsWords S fuel mem uio := by
  have hoff : g.offset.toInt < 2 ^ 31 := BitVec.toInt_lt
  have hresid : -2 ^ 31 ≤ uio.resid.toInt := BitVec.le_toInt uio.resid
  constructor
  · rw [hnone]
    omega
  · rw [hnone]
    omega

/-- No more bytes find space than the vectors have. -/
theorem total_vecAnswers_le (L : SpaceLaws S off content) (w : Place Disk Pos) (vs : List Iovec)
    (hfuel : 2 ^ 31 ≤ fuel) :
    total (S.vecAnswers fuel w vs) ≤ (vs.flatMap Iovec.buf).length := by
  induction vs generalizing w with
  | nil => exact Nat.le_refl 0
  | cons v vs ih =>
    have hv := v.len_lt
    have hle := (answers_space L w (by omega : v.buf.length < fuel)).1.lastErr.2
    have hrest := ih (S.answers fuel w v.buf).2
    rw [vecAnswers_cons L w v vs hfuel, total_append, List.flatMap_cons, List.length_append]
    omega

/-- A request whose end fits the words fits, however much of it finds space. -/
theorem fits_of_length (L : SpaceLaws S off content) {mem : Bool} {uio : Uio}
    (hfuel : 2 ^ 31 ≤ fuel) (hoff : g.offset.toInt + uio.data.length < 2 ^ 31)
    (hresid : -2 ^ 31 ≤ uio.resid.toInt - uio.data.length) : g.FitsWords S fuel mem uio := by
  have htaken : g.taken S fuel mem uio ≤ uio.data.length := by
    unfold Handle.taken Handle.dataAnswers
    split
    · exact Nat.zero_le _
    dsimp only
    split
    · exact total_vecAnswers_le L _ uio.iov hfuel
    · exact Nat.zero_le _
  constructor <;> omega

/-- The loop over the vectors and what follows it, on a handle `f` whose hole has been filled. -/
theorem writeData_space (L : SpaceLaws S off content) (uio : Uio) {f : Handle Disk Pos}
    (hfuel : 2 ^ 31 ≤ fuel) (hf : g.Filled off content f) :
    ∃ h' resid d, writeData S fuel f uio
        = some (lastErr .ENOERR (S.vecAnswers fuel f.place uio.iov), h', resid) ∧
      resid = uio.resid - BitVec.ofNat 32 d.length ∧
      h'.offset.toNat = g.offset.toNat + d.length ∧
      content h'.disk h'.dentry = overwrite (content f.disk f.dentry) g.offset.toNat d ∧
      d.length = total (S.vecAnswers fuel f.place uio.iov) ∧
      (S.SpaceOnlyLast fuel f.place uio.iov → d <+: uio.data) := by
  obtain ⟨y, d, hloop, hresid, hput, hlen, hbegin⟩ :=
    writeVecs_space (x := f.xfer uio) L .ENOERR uio.iov hfuel
  obtain ⟨hpos, -⟩ := writeVecs_flow hloop
  have hcur : off (f.xfer uio).place.cursor = g.offset.toNat := hf.cursor
  have hmoved : off y.cursor = g.offset.toNat + d.length := by
    rw [← hcur]
    exact hput.cursor
  -- the cursor does not wrap around, so neither does `pos`
  have hfit := L.bounded y.cursor
  have hnat : y.pos.toNat = g.offset.toNat + d.length := by
    rw [hpos, ← hlen, BitVec.toNat_add, BitVec.toNat_ofNat]
    show (f.offset.toNat + _) % _ = _
    rw [hf.offset]
    omega
  refine ⟨{ f.partialXfer y with
      dentry := { y.dentry with
        size := if y.dentry.size < y.pos then y.pos else y.dentry.size }
      offset := y.pos }, y.resid, d, ?_, hresid, hnat, ?_, hlen, hbegin⟩
  · simp only [writeData, hloop]
    rfl
  · show content y.disk { y.dentry with size := _ } = _
    rw [L.resize, ← hcur]
    ext k : 1
    exact hput.content k (by omega)

/-- What a write does whose hole has been filled: the calls for its vectors, and the words that it
    stores. -/
theorem Handle.Filled.space (L : SpaceLaws S off content) {uio : Uio} {f : Handle Disk Pos}
    {mem : Bool} (hfuel : 2 ^ 31 ≤ fuel) (hf : g.Filled off content f)
    (hstart : h.start = g.offset) (hsize : h.dentry.size = g.dentry.size)
    (hdata : content h.disk h.dentry = content g.disk g.dentry)
    (hmem : ¬(g.gap = true ∧ mem = false))
    (hok : (g.holeAnswers S fuel).1.all Answer.isOk = true)
    (hplace : (g.holeAnswers S fuel).2 = f.place) :
    ∃ err h' resid, writeData S fuel f uio = some (err, h', resid) ∧
      (StoresPrefix content h h' uio err resid (g.calls S fuel mem uio) ↔
        g.Ends S fuel mem uio ∧ g.FitsWords S fuel mem uio) := by
  obtain ⟨h', resid, d, hw, hresid, hoff, hcontent, hlen, hbegin⟩ :=
    writeData_space L uio hfuel hf
  have hcalls : g.calls S fuel mem uio
      = (g.holeAnswers S fuel).1 ++ S.vecAnswers fuel f.place uio.iov := by
    simp only [Handle.calls, hmem, if_false, Handle.dataAnswers, hok, if_true, hplace]
  have hends : g.Ends S fuel mem uio ↔ S.SpaceOnlyLast fuel f.place uio.iov := by
    simp only [Handle.Ends, hmem, if_false, hok, if_true, hplace]
  have htaken : g.taken S fuel mem uio = d.length := by
    simp only [Handle.taken, hmem, if_false, Handle.dataAnswers, hok, if_true, hplace, hlen]
  have hlt : d.length < 2 ^ 32 := by
    have hfit := h'.offset.isLt
    omega
  refine ⟨_, h', resid, hw, ?_⟩
  rw [hends, hcalls]
  constructor
  · rintro ⟨hstops, d', -, -, hdrop, hrise, -⟩
    rw [hstart] at hrise
    obtain heq : d'.length = d.length := eq_of_toInt_rise hoff hrise
    refine ⟨(spaceOnlyLast_iff L hfuel).mpr ((stops_append hok).mp hstops), ?_, ?_⟩
    · rw [htaken]
      exact (toInt_rise hoff).mp (heq ▸ hrise)
    · rw [htaken]
      rw [hresid, heq] at hdrop
      exact (toInt_drop uio.resid hlt).mp hdrop
  · rintro ⟨hlast, hfits⟩
    have hend := vecAnswers_space L hfuel hlast
    have hrise := hfits.offset
    have hdrop := hfits.resid
    rw [htaken] at hrise hdrop
    refine ⟨(stops_append hok).mpr hend.stops, d, hbegin hlast, ?_, ?_, ?_, ?_⟩
    · -- the zeros of the hole lie between the end of the file and the offset
      intro k hk
      rw [hcontent, hf.content, hstart, hdata]
      rw [hstart, hsize] at hk
      apply overwrite_congr
      intro hout
      by_cases hin : k < g.dentry.size.toNat
      · exact overwrite_of_lt _ _ hin
      · exact overwrite_of_ge _ (by rw [List.length_replicate]; omega)
    · rw [hresid]
      exact (toInt_drop uio.resid hlt).mpr hdrop
    · rw [hstart]
      exact (toInt_rise hoff).mpr hrise
    · rw [hlen]
      exact hend.lastErr.1

/-- The loop that fills the hole finds no space: nothing of the request is stored. -/
theorem hole_full {uio : Uio} (hc : g.Coherent off) (hn : g.Near)
    (hgap : g.dentry.size < g.offset) (hstart : h.start = g.offset)
    (hsize : h.dentry.size = g.dentry.size)
    (hdata : content h.disk h.dentry = content g.disk g.dentry)
    (hput : Put off content g.place x'.place
      (g.hole.take (total (S.answers fuel g.place g.hole).1))
      (total (S.answers fuel g.place g.hole).1))
    (hstops : Stops (S.answers fuel g.place g.hole).1)
    (hless : total (S.answers fuel g.place g.hole).1 < g.hole.length) :
    StoresPrefix content h (g.partialXfer x') uio .ENOSPC uio.resid
        (S.answers fuel g.place g.hole).1 ↔ uio.data ≠ [] := by
  have hcur : off g.place.cursor = g.dentry.size.toNat := hc.at_end hgap
  have hlength := hole_length hn hgap
  constructor
  · rintro ⟨-, d, hbegin, -, -, -, herr⟩ hnil
    have hlt := herr.mp rfl
    rw [hnil] at hlt
    exact absurd hlt (Nat.not_lt_zero _)
  · intro hne
    refine ⟨hstops, [], List.nil_prefix, ?_, (Int.sub_zero _).symm, ?_, ?_⟩
    · intro k hk
      rw [hstart, hsize] at hk
      rw [overwrite_nil, hdata]
      refine (hput.content k (by omega)).trans ?_
      rw [hcur]
      rcases hk with hlt | hge
      · exact overwrite_of_lt _ _ hlt
      · exact overwrite_of_ge _ (by rw [List.length_take]; omega)
    · rw [hstart]
      exact (Int.add_zero _).symm
    · exact iff_of_true rfl (List.length_pos_iff.mpr hne)

/-- `fatfs_fo_write`, after the offset is known: its calls, its result and the words that it
    stores. -/
theorem writeAtOffset_space (L : SpaceLaws S off content) (uio : Uio) (mem : Bool)
    (hfuel : 2 ^ 31 ≤ fuel) (hc : g.Coherent off) (hn : g.Near) (hstart : h.start = g.offset)
    (hsize : h.dentry.size = g.dentry.size)
    (hdata : content h.disk h.dentry = content g.disk g.dentry) :
    ∃ err h' resid, writeAtOffset S fuel mem g uio = some (err, h', resid) ∧
      (StoresPrefix content h h' uio err resid (g.calls S fuel mem uio) ↔
        g.Ends S fuel mem uio ∧ g.FitsWords S fuel mem uio) := by
  by_cases hlt : g.dentry.size < g.offset
  · have hgap : g.gap = true := decide_eq_true hlt
    have hlength := hole_length hn hlt
    have hfar := hn.far hlt
    have hshort : g.hole.length < fuel := by omega
    cases hmem : mem with
    | false =>
      refine ⟨.EINVAL, g, uio.resid, ?_, ?_⟩
      · simp only [writeAtOffset, hlt, if_true, Bool.false_eq_true, if_false]
      have hfits : g.FitsWords S fuel false uio := fits_of_none (by simp [Handle.taken, hgap])
      simp only [Handle.calls, Handle.Ends, hgap, if_true, hfits, and_true]
      constructor
      · -- nothing was stored, and the result is not `ENOSPC`
        rintro ⟨-, d, -, -, -, hoff, herr⟩
        rw [hstart] at hoff
        by_contra hne
        have hpos := List.length_pos_iff.mpr hne
        exact absurd (herr.mpr (by omega)) (by decide)
      · intro hnil
        refine ⟨stops_nil, [], List.nil_prefix, fun k _ => ?_,
          (Int.sub_zero _).symm, by rw [hstart]; exact (Int.add_zero _).symm, ?_⟩
        · rw [overwrite_nil, hdata]
        · rw [hnil]
          exact iff_of_false (by decide) (Nat.lt_irrefl _)
    | true =>
      obtain ⟨y, hfill, hplace, -⟩ := fillHole_space (x := g.xfer uio) L hshort
      obtain ⟨hend, hput⟩ := answers_space L g.place hshort
      have hplace : (S.answers fuel g.place g.hole).2 = y.place := hplace
      have hfill : fillHole S fuel (g.xfer uio) g.hole
          = some (lastErr .ENOERR (S.answers fuel g.place g.hole).1, y) := hfill
      have hans := holeAnswers_of_gap S fuel hlt
      cases hend with
      | all hok htotal =>
        rw [lastErr_of_ok hok] at hfill
        obtain ⟨hfilled, hok', hplace', -⟩ := fillHole_filled L.toWriteLaws hc hn hlt hfill
        simp only [writeAtOffset, hlt, if_true, hfill]
        exact hfilled.space L hfuel hstart hsize hdata (by simp) hok' hplace'
      | full oks k has hok htotal =>
        have herr : lastErr .ENOERR (S.answers fuel g.place g.hole).1 = .ENOSPC := by
          rw [has, lastErr_append, lastErr_cons, lastErr_nil]
        have hbad : (S.answers fuel g.place g.hole).1.all Answer.isOk = false := by
          rw [has, List.all_append, hok]
          rfl
        rw [herr] at hfill
        rw [hplace] at hput
        refine ⟨.ENOSPC, g.partialXfer y, uio.resid, ?_, ?_⟩
        · simp only [writeAtOffset, hlt, if_true, hfill]
        have hcalls : g.calls S fuel true uio = (S.answers fuel g.place g.hole).1 := by
          simp [Handle.calls, Handle.dataAnswers, hans, hbad]
        have hends : g.Ends S fuel true uio ↔ uio.data ≠ [] := by
          simp [Handle.Ends, hans, hbad]
        have hfits : g.FitsWords S fuel true uio := by
          apply fits_of_none
          simp [Handle.taken, Handle.dataAnswers, hans, hbad]
        rw [hcalls, hends, and_iff_left hfits]
        exact hole_full hc hn hlt hstart hsize hdata hput
          (SpaceEnd.full oks k has hok htotal).stops htotal
  · obtain ⟨hans, hfilled⟩ : g.holeAnswers S fuel = ([], g.place) ∧ g.Filled off content g :=
      hc.filled hlt
    have hgap : g.gap = false := decide_eq_false hlt
    simp only [writeAtOffset, hlt, if_false]
    apply hfilled.space L hfuel hstart hsize hdata (by simp [hgap])
    · rw [hans]
      rfl
    · rw [hans]

/-- **Writing to a full disk.**  When the only error of `fatfs_write_data` is `ENOSPC`,
    `fatfs_fo_write` returns; on a disk that logs the calls of `fatfs_write_data` it does the same,
    and by this log it stores a prefix of the request exactly when `ENOSPC` comes up only where
    nothing is left to write, and the end of what was stored fits `f_offset` and `uio_resid`. -/
theorem full_disk (L : SpaceLaws S off content) (uio : Uio) (mem : Bool)
    (hfuel : 2 ^ 31 ≤ fuel) (hc : h.Coherent off) (hn : h.Near) :
    ∃ err h' resid as, foWrite S fuel mem h uio = some (err, h', resid) ∧
      foWrite S.logged fuel mem (h.withLog []) uio = some (err, h'.withLog as, resid) ∧
      (StoresPrefix content h h' uio err resid as ↔
        (h.toEnd S).Ends S fuel mem uio ∧ (h.toEnd S).FitsWords S fuel mem uio) := by
  obtain ⟨hcg, hoff, hdentry, -⟩ := toEnd_spec L.toPlaceLaws hc
  have hn' : (h.toEnd S).Near := by
    rw [Handle.Near, hoff, hdentry]
    exact start_near hn
  obtain ⟨err, h', resid, hw, hiff⟩ := writeAtOffset_space L uio mem hfuel hcg
    hn' hoff.symm (by rw [hdentry]) (toEnd_content L.toWriteLaws h).symm
  have hlog := foWrite_logged S fuel mem h [] uio
  have hwrite : foWrite S fuel mem h uio = some (err, h', resid) := hw
  rw [hwrite] at hlog
  exact ⟨err, h', resid, _, hwrite, hlog, hiff⟩

/-! ### A disk that runs full -/

/-- The data of a file, and how many bytes the next calls find space for. -/
abbrev RoomDisk := (Nat → UInt8) × List Nat

/-- A file on such a disk, whose calls take what space they find. -/
def roomSupport : FatSupport RoomDisk (BitVec 32) where
  initpos _ _ := 0
  setpos d _ _ m := (.ENOERR, d, m)
  readData d _ p l :=
    let k := min l.toNat (2 ^ 32 - 1 - p.toNat)
    (.ENOERR, d, p + BitVec.ofNat 32 k, slice d.1 p.toNat k)
  writeData d e p buf :=
    let k := min buf.length (min (d.2.headD 0) (2 ^ 32 - 1 - p.toNat))
    (if k = buf.length then .ENOERR else .ENOSPC,
      (overwrite d.1 p.toNat (buf.take k), d.2.tail), e, p + BitVec.ofNat 32 k,
      BitVec.ofNat 32 k)
  truncFile d e := (d, { e with size := 0 })

/-- The data of the file. -/
def roomData (d : RoomDisk) (_ : Dentry) : Nat → UInt8 := d.1

/-- The support code with little room obeys the laws, so that they can be met with a disk that
    fills. -/
theorem roomSupport_laws : SpaceLaws roomSupport BitVec.toNat roomData := by
  -- no transfer goes beyond the last offset
  have hmoved : ∀ (p : BitVec 32) (k : Nat), k ≤ 2 ^ 32 - 1 - p.toNat →
      (p + BitVec.ofNat 32 k).toNat = p.toNat + k ∧ (BitVec.ofNat 32 k).toNat = k := by
    intro p k hk
    have hp := p.isLt
    rw [BitVec.toNat_add, BitVec.toNat_ofNat]
    constructor <;> omega
  refine ⟨⟨⟨⟨fun d e => rfl, fun d e p m _ => rfl⟩, ?_, ?_, fun d e => rfl⟩, fun p => p.isLt,
    fun d e p m _ => rfl, ?_, fun d e m => rfl⟩, ?_, ?_⟩
  · intro d e p l err d' p' buf hr
    simp only [roomSupport, Prod.mk.injEq] at hr
    obtain ⟨-, -, rfl, rfl⟩ := hr
    rw [length_slice]
    exact ⟨(hmoved p _ (Nat.min_le_right _ _)).1, Nat.min_le_left _ _⟩
  · intro d e p buf err d' e' p' l hw
    simp only [roomSupport, Prod.mk.injEq] at hw
    obtain ⟨-, -, rfl, rfl, rfl⟩ := hw
    obtain ⟨hadd, hcount⟩ := hmoved p
      (min buf.length (min (d.2.headD 0) (2 ^ 32 - 1 - p.toNat))) (by omega)
    rw [hcount]
    exact ⟨hadd, Nat.min_le_left _ _, rfl⟩
  · intro d e p buf err d' e' p' l hw k _
    simp only [roomSupport, Prod.mk.injEq] at hw
    obtain ⟨-, rfl, rfl, rfl, rfl⟩ := hw
    rw [(hmoved p _ (by omega)).2]
    rfl
  · intro d e p buf err d' e' p' l hne hw
    simp only [roomSupport, Prod.mk.injEq] at hw
    obtain ⟨rfl, -, -, -, rfl⟩ := hw
    have hpos := List.length_pos_iff.mpr hne
    rw [(hmoved p _ (by omega)).2]
    split
    · exact Or.inl ⟨rfl, by omega⟩
    · exact Or.inr ⟨rfl, by omega⟩
  · intro d e p buf err d' e' p' l hw
    simp only [roomSupport, Prod.mk.injEq] at hw
    obtain ⟨-, rfl, rfl, rfl, rfl⟩ := hw
    rw [(hmoved p _ (by omega)).2]
    rfl

/-- A descriptor on an empty file; the calls find the given space. -/
def emptyFile (rooms : List Nat) : Handle RoomDisk (BitVec 32) :=
  ⟨(fun _ => 0, rooms), ⟨0, false, false, 2⟩, 0, false, 0⟩

/-- There is space for two of the three bytes: a prefix is stored, with one call. -/
theorem full_disk_one_vector : ∃ err h' resid as,
    foWrite roomSupport.logged (2 ^ 31) true ((emptyFile [2]).withLog []) someBytes
      = some (err, h'.withLog as, resid) ∧
      StoresPrefix roomData (emptyFile [2]) h' someBytes err resid as := by
  obtain ⟨err, h', resid, as, -, hlog, hiff⟩ := full_disk (h := emptyFile [2]) roomSupport_laws
    someBytes true (Nat.le_refl (2 ^ 31)) rfl (Or.inl (BitVec.le_refl _))
  refine ⟨err, h', resid, as, hlog, hiff.mpr ⟨?_, ?_⟩⟩
  · -- there is no hole, and nothing behind the only vector
    have hgap : ((emptyFile [2]).toEnd roomSupport).gap = false := by decide
    simp only [Handle.Ends, Handle.holeAnswers, hgap, Bool.false_eq_true, false_and, if_false,
      List.all_nil, if_true, someBytes, FatSupport.SpaceOnlyLast]
    split
    · trivial
    · rintro v ⟨⟩
  · exact fits_of_length roomSupport_laws (Nat.le_refl (2 ^ 31)) (by decide) (by decide)

/-- A request in two vectors. -/
def twoVectors : Uio := ⟨[⟨[1, 2, 3], Iovec.three_lt⟩, ⟨[4, 5], by decide⟩], 5⟩

/-- There is space for two of the three bytes of the first vector, and then for the second
    vector: the write goes on with it, stores `1, 2, 4, 5`, and reports success. -/
theorem second_vector_written : ∃ h' as,
    foWrite roomSupport.logged 4 true ((emptyFile [2, 2]).withLog []) twoVectors
      = some (.ENOERR, h'.withLog as, 1) ∧
      as = [⟨.ENOSPC, 2⟩, ⟨.ENOERR, 2⟩] ∧
      slice (roomData h'.disk h'.dentry) 0 4 = [1, 2, 4, 5] ∧
      ¬StoresPrefix roomData (emptyFile [2, 2]) h' twoVectors .ENOERR 1 as := by
  refine ⟨⟨(_, []), ⟨4, false, false, 2⟩, 4, false, 4⟩, _, rfl, by decide, by decide, ?_⟩
  rintro ⟨hstops, -⟩
  exact hstops ⟨.ENOSPC, 2⟩ (by decide) rfl

end Ecos.Fat
