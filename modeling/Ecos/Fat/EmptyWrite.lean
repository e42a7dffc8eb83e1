import Ecos.Fat.Offset

namespace Ecos.Fat

open Ecos.Lib

/-!
# Writing nothing

What `fatfs_fo_write` does when all vectors of the request are empty.

* `ChainLaws` — what is known of the clusters of a file;
* `Handle.Same` — the file and the descriptor are what they were;
* `empty_write` — that is so exactly when there is no hole to fill, or nothing of it can be
  filled.

The hole in front of the offset is filled before the vectors are looked at, and the size is set to
the position whether or not a byte was written there.
-/

variable {Disk Pos : Type} {S : FatSupport Disk Pos} {h h' g : Handle Disk Pos}
  {x x' : Xfer Disk Pos} {fuel : Nat} {err : Err}

/-! ### The file and the descriptor -/

/-- What is known of the clusters of a file: `chain d e` are the numbers of the clusters of the
    file with entry `e`. -/
structure ChainLaws {Disk Pos : Type} (S : FatSupport Disk Pos) (off : Pos → Nat)
    (content : Disk → Dentry → Nat → UInt8) (chain : Disk → Dentry → List (BitVec 32)) : Prop
    extends WriteLaws S off content where
  /-- A call that succeeds has written something. -/
  progress : ∀ {d e p buf d' e' p' l}, buf ≠ [] →
    S.writeData d e p buf = (.ENOERR, d', e', p', l) → 0 < l.toNat
  /-- Placing the cursor leaves the clusters alone. -/
  setpos_chain : ∀ d e p n, chain (S.setpos d e p n).2.1 e = chain d e
  /-- The size of a file is kept apart from its clusters. -/
  resize_chain : ∀ d e n, chain d { e with size := n } = chain d e

/-- The file and the descriptor are the same after a write; in append mode, the offset is at the
    end of the file. -/
structure Handle.Same (off : Pos → Nat) (content : Disk → Dentry → Nat → UInt8)
    (chain : Disk → Dentry → List (BitVec 32)) (h h' : Handle Disk Pos) : Prop where
  size : h'.dentry.size = h.dentry.size
  content : ∀ k < h.dentry.size.toNat, content h'.disk h'.dentry k = content h.disk h.dentry k
  chain : chain h'.disk h'.dentry = chain h.disk h.dentry
  offset : h'.offset = if h.append then h.dentry.size else h.offset
  cursor : off h'.pos = if h.append then h.dentry.size.toNat else off h.pos

variable (S) in
/-- Nothing is written before the vectors are looked at: there is no hole, or no memory for its
    zeros, or the first call fails without taking a byte or a cluster. -/
def Handle.NoFill (chain : Disk → Dentry → List (BitVec 32)) (fuel : Nat) (mem : Bool)
    (g : Handle Disk Pos) : Prop :=
  g.gap = false ∨ mem = false ∨
    ((g.holeAnswers S fuel).1.all Answer.isOk = false ∧ total (g.holeAnswers S fuel).1 = 0 ∧
      chain (g.holeAnswers S fuel).2.disk (g.holeAnswers S fuel).2.dentry
        = chain g.disk g.dentry)

variable {off : Pos → Nat} {content : Disk → Dentry → Nat → UInt8}
  {chain : Disk → Dentry → List (BitVec 32)}

/-- The loop that fills the hole ends, since each turn writes some of it or fails. -/
theorem fillHole_ends (L : ChainLaws S off content chain) {buf : List UInt8}
    (hfuel : buf.length < fuel) : ∃ err x', fillHole S fuel x buf = some (err, x') := by
  induction fuel generalizing x buf with
  | zero => omega
  | succ fuel ih =>
    by_cases hnil : buf = []
    · exact ⟨_, _, by simp only [fillHole, hnil, if_true]; rfl⟩
    rcases hw : S.writeData x.disk x.dentry x.cursor buf with ⟨err, disk, dentry, cursor, l⟩
    simp only [fillHole, hnil, if_false, hw]
    by_cases hok : err = .ENOERR
    · subst hok
      have hpos := L.progress hnil hw
      have hcount := (L.writeData hw).2.1
      apply ih
      rw [List.length_drop]
      omega
    · exact ⟨err, { x with disk, dentry, cursor }, by
        cases err <;> first | rfl | exact absurd rfl hok⟩

/-- Empty vectors are written by no call, so that only the filling of the hole can change the
    file. -/
theorem writeVecs_empty {vs : List Iovec} (hempty : ∀ v ∈ vs, v.buf = []) (hfuel : 0 < fuel)
    (err : Err) : writeVecs S fuel err x vs = some (.next err, x) := by
  obtain ⟨n, rfl⟩ : ∃ n, fuel = n + 1 := ⟨fuel - 1, by omega⟩
  induction vs with
  | nil => rfl
  | cons v vs ih =>
    have hnil := hempty v List.mem_cons_self
    simp only [writeVecs, writeVec, hnil, if_true]
    exact ih fun v' hv' => hempty v' (List.mem_cons_of_mem v hv')

/-- The file grows to the offset, as it does when the hole before it is filled. -/
def Handle.grow (g : Handle Disk Pos) : Handle Disk Pos :=
  { g with dentry := { g.dentry with
      size := if g.dentry.size < g.offset then g.offset else g.dentry.size } }

/-- Without a byte to write, the end of the function stores the offset as it is, and grows the
    file to it. -/
theorem writeData_empty {uio : Uio} (hempty : ∀ v ∈ uio.iov, v.buf = []) (hfuel : 0 < fuel) :
    writeData S fuel g uio = some (.ENOERR, g.grow, uio.resid) := by
  simp only [writeData, writeVecs_empty hempty hfuel]
  rfl

/-- A write of nothing at an offset behind the end of the file. -/
theorem empty_hole (L : ChainLaws S off content chain) {uio : Uio}
    (hempty : ∀ v ∈ uio.iov, v.buf = []) (hfuel : 2 ^ 31 ≤ fuel) (hc : g.Coherent off)
    (hn : g.Near) (happ : g.append = false) (hlt : g.dentry.size < g.offset) :
    ∃ err h' resid, writeAtOffset S fuel true g uio = some (err, h', resid) ∧
      (g.Same off content chain h' ↔ g.NoFill S chain fuel true) := by
  have hgap : g.gap = true := decide_eq_true hlt
  have hans := holeAnswers_of_gap S fuel hlt
  have hlength := hole_length hn hlt
  have hfar := hn.far hlt
  have hshort : g.hole.length < fuel := by omega
  obtain ⟨err, y, hfill⟩ := fillHole_ends (x := g.xfer uio) L hshort
  obtain ⟨hplace, -, hall⟩ := fillHole_answers hfill
  have hplace : (S.answers fuel g.place g.hole).2 = y.place := hplace
  have hall : err = .ENOERR ↔ (S.answers fuel g.place g.hole).1.all Answer.isOk = true := hall
  by_cases hok : err = .ENOERR
  · -- the hole is filled, and the size grows to the offset
    subst hok
    have hsize := (fillHole_spec L.toCursorLaws hfill).2
    refine ⟨.ENOERR, (g.partialXfer y).grow, uio.resid, ?_, ?_⟩
    · simp only [writeAtOffset, hlt, if_true, hfill]
      exact writeData_empty hempty (by omega)
    refine iff_of_false (fun hsame => ?_) ?_
    · have hgrown : (if y.dentry.size < g.offset then g.offset else y.dentry.size)
          = g.dentry.size := hsame.size
      have hold : y.dentry.size = g.dentry.size := hsize
      rw [hold, if_pos hlt] at hgrown
      rw [hgrown] at hlt
      exact BitVec.lt_irrefl _ hlt
    · rintro (hno | hno | ⟨hbad, -⟩)
      · rw [hgap] at hno
        cases hno
      · cases hno
      · rw [hans, hall.mp rfl] at hbad
        cases hbad
  · -- the hole is not filled: the function returns
    obtain ⟨d, hput, hlen, -⟩ := answers_put L.toWriteLaws fuel g.place g.hole
    rw [hplace] at hput
    have hcur := hc.at_end hlt
    have hbad : (S.answers fuel g.place g.hole).1.all Answer.isOk = false := by
      rw [← Bool.not_eq_true]
      exact fun hgood => hok (hall.mpr hgood)
    refine ⟨err, g.partialXfer y, uio.resid, ?_, ?_⟩
    · simp only [writeAtOffset, hlt, if_true, hfill]
    have hnofill : g.NoFill S chain fuel true ↔ d.length = 0 ∧
        chain y.disk y.dentry = chain g.disk g.dentry := by
      simp only [Handle.NoFill, hgap, hans, hplace, hbad, hlen]
      simp [Xfer.place]
    rw [hnofill]
    have hmoved : off y.cursor = off g.pos + d.length := hput.cursor
    constructor
    · intro hsame
      have hcursor : off y.cursor = _ := hsame.cursor
      rw [happ, hmoved] at hcursor
      refine ⟨by simpa using hcursor, hsame.chain⟩
    · rintro ⟨hzero, hchain⟩
      refine ⟨hput.size, fun k hk => ?_, hchain, ?_, ?_⟩
      · -- the zeros go behind the end of the file
        have hbefore : k < off g.place.cursor := by
          show k < off g.pos
          omega
        exact (hput.content k (by omega)).trans (overwrite_of_lt _ _ hbefore)
      · rw [happ]
        rfl
      · rw [happ]
        show off y.cursor = off g.pos
        omega

/-- **Writing nothing** changes nothing exactly when there is no hole to fill, or nothing of it
    can be filled. -/
theorem empty_write (L : ChainLaws S off content chain) {uio : Uio}
    (hempty : ∀ v ∈ uio.iov, v.buf = []) (hfuel : 2 ^ 31 ≤ fuel) (hc : h.Coherent off)
    (hn : h.Near) (mem : Bool) :
    ∃ err h' resid, foWrite S fuel mem h uio = some (err, h', resid) ∧
      (h.Same off content chain h' ↔ (h.toEnd S).NoFill S chain fuel mem) := by
  have hpos : 0 < fuel := by omega
  by_cases happ : h.append = true
  · -- in append mode there is no hole
    have hend : h.toEnd S = { h with
        disk := (S.setpos h.disk h.dentry h.pos h.dentry.size).2.1
        pos := (S.setpos h.disk h.dentry h.pos h.dentry.size).2.2
        offset := h.dentry.size } := by
      simp only [Handle.toEnd, happ, if_true]
    have hgap : (h.toEnd S).gap = false := by
      rw [hend]
      exact decide_eq_false (BitVec.lt_irrefl _)
    refine ⟨.ENOERR, (h.toEnd S).grow, uio.resid, ?_, iff_of_true ?_ (Or.inl hgap)⟩
    · rw [foWrite, writeAtOffset, if_neg (of_decide_eq_false hgap)]
      exact writeData_empty hempty hpos
    rw [hend]
    refine ⟨?_, fun k _ => ?_, ?_, ?_, ?_⟩
    · show (if _ < _ then _ else _) = _
      rw [if_neg (BitVec.lt_irrefl _)]
    · show content (S.setpos h.disk h.dentry h.pos h.dentry.size).2.1
        { h.dentry with size := _ } k = _
      rw [L.resize, L.setpos_content _ _ _ _ (BitVec.le_refl _)]
    · show chain (S.setpos h.disk h.dentry h.pos h.dentry.size).2.1
        { h.dentry with size := _ } = _
      rw [L.resize_chain, L.setpos_chain]
    · rw [happ]
      rfl
    · rw [happ]
      exact L.setpos _ _ _ _ (BitVec.le_refl _)
  have happ : h.append = false := by simpa using happ
  have hend : h.toEnd S = h := by
    simp only [Handle.toEnd, happ, Bool.false_eq_true, if_false]
  rw [foWrite, hend]
  by_cases hlt : h.dentry.size < h.offset
  · cases mem with
    | true => exact empty_hole L hempty hfuel hc hn happ hlt
    | false =>
      refine ⟨.EINVAL, h, uio.resid, ?_, iff_of_true ?_ (Or.inr (Or.inl rfl))⟩
      · simp only [writeAtOffset, hlt, if_true, Bool.false_eq_true, if_false]
      · exact ⟨rfl, fun _ _ => rfl, rfl, by rw [happ]; rfl, by rw [happ]; rfl⟩
  · refine ⟨.ENOERR, h.grow, uio.resid, ?_, iff_of_true ?_ (Or.inl (decide_eq_false hlt))⟩
    · rw [writeAtOffset, if_neg hlt]
      exact writeData_empty hempty hpos
    · rw [Handle.grow, if_neg hlt]
      exact ⟨rfl, fun _ _ => rfl, rfl, by rw [happ]; rfl, by rw [happ]; rfl⟩

/-! ### An empty request behind the end of a file -/

/-- A request without bytes, in two vectors. -/
def noBytes : Uio := ⟨[⟨[], by decide⟩, ⟨[], by decide⟩], 0⟩

/-- The clusters of the file, of four bytes each. -/
def roomChain (_ : RoomDisk) (e : Dentry) : List (BitVec 32) := [e.cluster]

/-- The disk with room for some bytes obeys the laws of the clusters as well. -/
theorem roomSupport_chain : ChainLaws roomSupport BitVec.toNat roomData roomChain where
  toWriteLaws := roomSupport_laws.toWriteLaws
  progress := by
    intro d e p buf d' e' p' l hne hw
    rcases roomSupport_laws.answer hne hw with ⟨-, hpos⟩ | ⟨herr, -⟩
    · exact hpos
    · cases herr
  setpos_chain _ _ _ _ := rfl
  resize_chain _ _ _ := rfl

/-- A write of nothing within a file changes neither size nor data. -/
theorem empty_write_within : ∃ err h' resid,
    foWrite roomSupport (2 ^ 31) true (sizedFile 4 2 []) noBytes = some (err, h', resid) ∧
      (sizedFile 4 2 []).Same BitVec.toNat roomData roomChain h' := by
  have hempty : ∀ v ∈ noBytes.iov, v.buf = [] := by decide
  obtain ⟨err, h', resid, hw, hiff⟩ := empty_write (h := sizedFile 4 2 []) roomSupport_chain
    hempty (Nat.le_refl (2 ^ 31)) (by decide) (Or.inl (by decide)) true
  exact ⟨err, h', resid, hw, hiff.mpr (Or.inl (by decide))⟩

/-- After a seek to offset 6 of a file of 4 bytes, a write of nothing makes it a file of 6
    bytes. -/
theorem empty_write_grows : ∃ h',
    (foLseek roomSupport (sizedFile 4 0 [8]) 6 .SEEK_SET).1 = .ENOERR ∧
      foWrite roomSupport 8 true (foLseek roomSupport (sizedFile 4 0 [8]) 6 .SEEK_SET).2.1 noBytes
        = some (.ENOERR, h', 0) ∧ h'.dentry.size = 6 ∧
      ¬(foLseek roomSupport (sizedFile 4 0 [8]) 6 .SEEK_SET).2.1.Same BitVec.toNat roomData
        roomChain h' :=
  ⟨_, by decide, rfl, by decide, fun hsame => absurd hsame.size (by decide)⟩

end Ecos.Fat
