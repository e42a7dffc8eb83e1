import Ecos.Lib.Run
import Ecos.Fat.Cursor

namespace Ecos.Fat

open Ecos.Lib

/-!
# Cursor coherence

Any number of descriptors, open on the same or on different files, and any interleaving of
successful calls.  The size of a file belongs to its node, which all descriptors of the file
share; the disk cursor belongs to the descriptor.

* `fatSystem` — the state machine of successful calls;
* `FatState.Coherent` — every cursor is at `f_offset`, or at the end of its file;
* `parked_cursor` — this fails: a seek beyond the end of the file parks the cursor at the end,
  and another descriptor moves the end;
* `KeepsCursors` — the calls that move no end of file under a cursor;
* `cursor_coherence` — in a run of such calls every state is coherent.
-/

/-- A call of the file system: an open, or an operation on an open file. -/
inductive FatCall (Disk : Type)
  | open (o : OpenArgs Disk)
  | op (i : Nat) (c : FileCall)

variable {Disk Pos : Type} (S : FatSupport Disk Pos)

/-- A call of the file system: its error code and the state it leaves. -/
def fatCall (fuel : Nat) (s : FatState Disk Pos) :
    FatCall Disk → Option (Err × FatState Disk Pos)
  | .open o => some (fatfsOpen S s o)
  | .op i c => (fileOp S fuel i s c).map fun (r, s') => (r.1, s')

/-- What the node cache provides: a node is allocated only when no descriptor refers to it. -/
def Admissible (s : FatState Disk Pos) : FatCall Disk → Prop
  | .open o => ∀ f, o.found = some f → f.loaded.isSome →
      ∀ j g, s.file j = some g → (s.fd g.data).node ≠ f.node
  | .op _ _ => True

/-- The successful calls, from a state in which no file is open, on any number of files and
    descriptors. -/
def fatSystem : LTS (FatState Disk Pos) (FatCall Disk) where
  init s := (∀ i, s.file i = none) ∧ s.pool.Nodup
  step s c s' := Admissible s c ∧ ∃ fuel, fatCall S fuel s c = some (.ENOERR, s')

/-- The size of the file that `g` is open on. -/
def FatState.sizeOf (s : FatState Disk Pos) (g : CygFile) : BitVec 32 :=
  (s.node (s.fd g.data).node).size

/-- Where a write on the descriptor goes, to the end when appending. -/
def FatState.startOf (s : FatState Disk Pos) (f : CygFile) : BitVec 32 :=
  if f.append then s.sizeOf f else f.offset

/-- The disk cursor of every open descriptor denotes the offset `min(f_offset, size)`. -/
def FatState.Coherent (off : Pos → Nat) (s : FatState Disk Pos) : Prop :=
  ∀ i g, s.file i = some g →
    off (s.fd g.data).pos = min g.offset.toNat (s.sizeOf g).toNat

/-- The calls that move no end of file under the cursor of another descriptor: a file that is
    not empty is truncated only while all its offsets are zero, and it grows only while no
    other descriptor is beyond its end.  No file grows to `2 ^ 32` bytes. -/
def KeepsCursors (s : FatState Disk Pos) : FatCall Disk → Prop
  | .open o => o.mode.trunc = true →
      ∀ f, o.found = some f → (s.node f.node).size ≠ 0 →
        ∀ j g, s.file j = some g → (s.fd g.data).node = f.node → g.offset = 0
  | .op i (.write _ uio) => ∀ f, s.file i = some f →
      (s.startOf f).toNat + uio.data.length < 2 ^ 32 ∧
        ((s.sizeOf f).toNat < (s.startOf f).toNat + uio.data.length →
          ∀ j g, j ≠ i → s.file j = some g → (s.fd g.data).node = (s.fd f.data).node →
            g.offset ≤ s.sizeOf f)
  | .op _ _ => True

variable {S} {off : Pos → Nat} {s s' : FatState Disk Pos} {f g : CygFile} {i j : Nat}

/-! ### The invariant -/

/-- The invariant of the runs: each descriptor in use has one file, and its cursor is coherent. -/
structure FatInv (off : Pos → Nat) (s : FatState Disk Pos) : Prop where
  pool_nodup : s.pool.Nodup
  /-- A descriptor in use is not in the pool. -/
  in_use : ∀ i f, s.file i = some f → f.data ∉ s.pool
  /-- No two files share a descriptor. -/
  own : ∀ i j f g, s.file i = some f → s.file j = some g → f.data = g.data → i = j
  coherent : s.Coherent off
  /-- An offset beyond the end of its file is one that a seek can leave. -/
  near : ∀ i f, s.file i = some f → f.offset ≤ s.sizeOf f ∨ f.offset.toNat < 2 ^ 31

/-- Before anything is opened the invariant holds. -/
theorem FatInv.init (hfile : ∀ i, s.file i = none) (hpool : s.pool.Nodup) : FatInv off s := by
  refine ⟨hpool, ?_, ?_, ?_, ?_⟩
  · intro i f hf
    simp [hfile i] at hf
  · intro i j f g hf
    simp [hfile i] at hf
  · intro i f hf
    simp [hfile i] at hf
  · intro i f hf
    simp [hfile i] at hf

/-- A size that the end of the file may move to without the cursor at `g` noticing. -/
def Keeps (g : CygFile) (size size' : BitVec 32) : Prop :=
  g.offset ≤ size ∧ size ≤ size' ∨ size' = size ∨ g.offset = 0

/-- A kept cursor is as far in the file as it was. -/
theorem Keeps.min {size size' : BitVec 32} (h : Keeps g size size') :
    min g.offset.toNat size'.toNat = min g.offset.toNat size.toNat := by
  rcases h with ⟨hle, hgrow⟩ | rfl | hzero
  · rw [BitVec.le_def] at hle hgrow
    omega
  · rfl
  · simp [hzero]

/-- It is as near to the end as it was, so that the hole before it can be filled. -/
theorem Keeps.near {size size' : BitVec 32} (h : Keeps g size size')
    (hn : g.offset ≤ size ∨ g.offset.toNat < 2 ^ 31) :
    g.offset ≤ size' ∨ g.offset.toNat < 2 ^ 31 := by
  rcases h with ⟨hle, hgrow⟩ | rfl | hzero
  · exact Or.inl (BitVec.le_trans hle hgrow)
  · exact hn
  · simp [hzero]

/-- A directory entry changes, and no cursor of a descriptor of its node notices. -/
theorem FatInv.setNode (h : FatInv off s) {n : Nat} {e : Dentry} (d : Disk)
    (hkeep : ∀ j g, s.file j = some g → (s.fd g.data).node = n →
      Keeps g (s.node n).size e.size) :
    FatInv off { s with disk := d, node := Function.update s.node n e } := by
  have hall : ∀ j g, s.file j = some g →
      Keeps g (s.sizeOf g) (Function.update s.node n e (s.fd g.data).node).size := by
    intro j g hg
    by_cases hn : (s.fd g.data).node = n
    · have hold := hkeep j g hg hn
      rw [hn, Function.update_self, FatState.sizeOf, hn]
      exact hold
    · rw [Function.update_of_ne hn]
      exact Or.inr (Or.inl rfl)
  refine ⟨h.pool_nodup, h.in_use, h.own, ?_, ?_⟩
  · intro j g hg
    exact (h.coherent j g hg).trans (hall j g hg).min.symm
  · intro j g hg
    exact (hall j g hg).near (h.near j g hg)

/-! ### The file operations -/

/-- **Frame.**  An operation on one descriptor writes back a handle that is coherent; the
    others stay coherent when they do not notice the new size. -/
theorem FatInv.store (h : FatInv off s) (hf : s.file i = some f) {h' : Handle Disk Pos}
    (hc : h'.Coherent off) (hn : h'.Near)
    (hkeep : ∀ j g, j ≠ i → s.file j = some g → (s.fd g.data).node = (s.fd f.data).node →
      Keeps g (s.sizeOf f) h'.dentry.size) :
    FatInv off (s.store i h') := by
  have hother : ∀ j g, j ≠ i → s.file j = some g → g.data ≠ f.data := by
    intro j g hne hg heq
    exact hne (h.own j i g f hg hf heq)
  -- what the entry of a file is after the operation
  have hfile : ∀ j g, (s.store i h').file j = some g →
      (j = i ∧ g = ⟨h'.append, h'.offset, f.data⟩) ∨ (j ≠ i ∧ s.file j = some g) := by
    intro j g hg
    simp only [FatState.store, hf] at hg
    by_cases hji : j = i
    · subst hji
      rw [Function.update_self] at hg
      exact Or.inl ⟨rfl, (Option.some.inj hg).symm⟩
    · rw [Function.update_of_ne hji] at hg
      exact Or.inr ⟨hji, hg⟩
  have hdata : ∀ j g, (s.store i h').file j = some g →
      ∃ g₀, s.file j = some g₀ ∧ g₀.data = g.data := by
    intro j g hg
    rcases hfile j g hg with ⟨rfl, rfl⟩ | ⟨-, hg⟩
    · exact ⟨f, hf, rfl⟩
    · exact ⟨g, hg, rfl⟩
  -- the cursor and the size that the operated file has now
  have hown : ((s.store i h').fd f.data).pos = h'.pos ∧
      (s.store i h').sizeOf ⟨h'.append, h'.offset, f.data⟩ = h'.dentry.size := by
    simp [FatState.store, FatState.sizeOf, hf]
  -- and those of the others
  have hframe : ∀ j g, j ≠ i → s.file j = some g →
      (s.store i h').fd g.data = s.fd g.data ∧
        Keeps g (s.sizeOf g) ((s.store i h').sizeOf g) := by
    intro j g hne hg
    have hd := hother j g hne hg
    have hfd : (s.store i h').fd g.data = s.fd g.data := by
      simp [FatState.store, hf, Function.update_of_ne hd]
    refine ⟨hfd, ?_⟩
    by_cases hnode : (s.fd g.data).node = (s.fd f.data).node
    · have hold := hkeep j g hne hg hnode
      have hsize : (s.store i h').sizeOf g = h'.dentry.size := by
        rw [FatState.sizeOf, hfd, hnode]
        simp [FatState.store, hf]
      rw [hsize, FatState.sizeOf, hnode]
      exact hold
    · refine Or.inr (Or.inl ?_)
      rw [FatState.sizeOf, hfd]
      simp [FatState.store, hf, Function.update_of_ne hnode, FatState.sizeOf]
  have hpool : (s.store i h').pool = s.pool := by simp [FatState.store, hf]
  refine ⟨?_, ?_, ?_, ?_, ?_⟩
  · rw [hpool]
    exact h.pool_nodup
  · intro j g hg
    obtain ⟨g₀, hg₀, heq⟩ := hdata j g hg
    rw [hpool, ← heq]
    exact h.in_use j g₀ hg₀
  · intro j k g g' hg hg' heq
    obtain ⟨g₀, hg₀, hd⟩ := hdata j g hg
    obtain ⟨g₁, hg₁, hd'⟩ := hdata k g' hg'
    exact h.own j k g₀ g₁ hg₀ hg₁ (hd.trans (heq.trans hd'.symm))
  · intro j g hg
    rcases hfile j g hg with ⟨-, rfl⟩ | ⟨hne, hg⟩
    · rw [hown.1, hown.2]
      exact hc
    · obtain ⟨hfd, hk⟩ := hframe j g hne hg
      rw [hfd, hk.min]
      exact h.coherent j g hg
  · intro j g hg
    rcases hfile j g hg with ⟨-, rfl⟩ | ⟨hne, hg⟩
    · rw [hown.2]
      exact hn
    · exact (hframe j g hne hg).2.near (h.near j g hg)

/-- What a file operation is: one on the handle of the file, which is written back. -/
theorem fileOp_cases {fuel : Nat} {c : FileCall} {r : Err × FileRet}
    (hop : fileOp S fuel i s c = some (r, s')) :
    ∃ f h', s.file i = some f ∧ (s.handleOf f).call S fuel c = some (r, h') ∧
      s' = s.store i h' := by
  obtain ⟨h, hh, hop⟩ := Option.bind_eq_some_iff.mp hop
  obtain ⟨⟨r', h'⟩, hcall, hret⟩ := Option.bind_eq_some_iff.mp hop
  simp only [Option.pure_def, Option.some.injEq, Prod.mk.injEq] at hret
  obtain ⟨rfl, rfl⟩ := hret
  obtain ⟨f, hf, rfl⟩ := Option.map_eq_some_iff.mp hh
  exact ⟨f, h', hf, hcall, rfl⟩

/-- A successful file operation keeps the invariant, when it keeps the other cursors where they
    were. -/
theorem FatInv.fileOp (L : CursorLaws S off) (h : FatInv off s) {fuel : Nat} {c : FileCall}
    {r : FileRet} (hk : KeepsCursors s (.op i c : FatCall Disk))
    (hop : fileOp S fuel i s c = some ((.ENOERR, r), s')) : FatInv off s' := by
  obtain ⟨f, h', hf, hcall, rfl⟩ := fileOp_cases hop
  have hc : (s.handleOf f).Coherent off := h.coherent i f hf
  have hn : (s.handleOf f).Near := h.near i f hf
  cases c with
  | lseek apos whence =>
    rcases hseek : foLseek S (s.handleOf f) apos whence with ⟨err, h₁, apos'⟩
    simp only [Handle.call, hseek, Option.some.injEq, Prod.mk.injEq] at hcall
    obtain ⟨⟨rfl, -⟩, rfl⟩ := hcall
    obtain ⟨hcoh, hdentry, -, hlt⟩ := foLseek_spec L.toPlaceLaws hseek
    apply h.store hf hcoh (Or.inr hlt)
    intro j g _ _ _
    rw [hdentry]
    exact Or.inr (Or.inl rfl)
  | read uio =>
    obtain ⟨⟨err, h₁, bufs, resid⟩, hread, heq⟩ := Option.map_eq_some_iff.mp hcall
    simp only [Prod.mk.injEq] at heq
    obtain ⟨⟨rfl, -⟩, rfl⟩ := heq
    obtain ⟨hcoh, hdentry, -, hmoved⟩ := foRead_spec L hc hread
    have hnear : h₁.Near := by
      rw [Handle.Near, hdentry]
      rcases hmoved with heq | hle
      · rw [heq]
        exact hn
      · exact Or.inl hle
    apply h.store hf hcoh hnear
    intro j g _ _ _
    rw [hdentry]
    exact Or.inr (Or.inl rfl)
  | write mem uio =>
    obtain ⟨⟨err, h₁, resid⟩, hwrite, heq⟩ := Option.map_eq_some_iff.mp hcall
    simp only [Prod.mk.injEq] at heq
    obtain ⟨⟨rfl, -⟩, rfl⟩ := heq
    obtain ⟨hfit, hgrow⟩ := hk f hf
    obtain ⟨t, ht, hwrote, -⟩ := foWrite_spec L hc hn hfit hwrite
    have hsize : h₁.dentry.size.toNat
        = max (s.sizeOf f).toNat ((s.startOf f).toNat + t) := hwrote.size
    have hoffset : h₁.offset.toNat = (s.startOf f).toNat + t := hwrote.offset
    have hnear : h₁.Near := by
      refine Or.inl ?_
      rw [BitVec.le_def]
      omega
    apply h.store hf hwrote.coherent hnear
    intro j g hne hg hnode
    by_cases hend : (s.startOf f).toNat + t ≤ (s.sizeOf f).toNat
    · -- the end of the file does not move
      refine Or.inr (Or.inl (BitVec.eq_of_toNat_eq ?_))
      omega
    · refine Or.inl ⟨hgrow (by omega) j g hne hg hnode, ?_⟩
      rw [BitVec.le_def]
      omega

/-! ### Opening a file -/

/-- `fatfs_open` from `alloc_fatfs_fd` on: the new descriptor is coherent. -/
theorem FatInv.allocFile (L : CursorLaws S off) (h : FatInv off s) {o : OpenArgs Disk}
    {n : Nat} (ho : allocFile S s o n = (.ENOERR, s')) : FatInv off s' := by
  obtain ⟨d, pool, disk, pos, hpool, hoff, rfl⟩ := allocFile_cases L.toPlaceLaws ho
  have hnodup := h.pool_nodup
  rw [hpool] at hnodup
  obtain ⟨hd, hnodup⟩ := List.nodup_cons.mp hnodup
  -- the descriptors in use are not the new one
  have hother : ∀ j g, s.file j = some g → g.data ≠ d := by
    intro j g hg heq
    apply h.in_use j g hg
    rw [hpool, heq]
    exact List.mem_cons_self
  have hfile : ∀ j g,
      Function.update s.file o.file (some (o.newFile (s.node n).size d)) j = some g →
        (j = o.file ∧ g = o.newFile (s.node n).size d) ∨ s.file j = some g := by
    intro j g hg
    by_cases hj : j = o.file
    · subst hj
      rw [Function.update_self] at hg
      exact Or.inl ⟨rfl, (Option.some.inj hg).symm⟩
    · rw [Function.update_of_ne hj] at hg
      exact Or.inr hg
  have hdata : (o.newFile (s.node n).size d).data = d := rfl
  refine ⟨hnodup, ?_, ?_, ?_, ?_⟩
  · intro j g hg
    rcases hfile j g hg with ⟨-, rfl⟩ | hg
    · exact hd
    · intro hmem
      apply h.in_use j g hg
      rw [hpool]
      exact List.mem_cons_of_mem _ hmem
  · intro j k g g' hg hg' heq
    rcases hfile j g hg with ⟨rfl, rfl⟩ | hg
    · rcases hfile k g' hg' with ⟨rfl, -⟩ | hg'
      · rfl
      · exact absurd heq.symm (hother k g' hg')
    · rcases hfile k g' hg' with ⟨rfl, rfl⟩ | hg'
      · exact absurd heq (hother j g hg)
      · exact h.own j k g g' hg hg' heq
  · intro j g hg
    rcases hfile j g hg with ⟨-, rfl⟩ | hg
    · have hle := newFile_offset_le o (s.node n).size d
      rw [BitVec.le_def] at hle
      simp only [FatState.sizeOf, hdata, Function.update_self]
      rw [hoff]
      omega
    · simp only [FatState.sizeOf, Function.update_of_ne (hother j g hg)]
      exact h.coherent j g hg
  · intro j g hg
    rcases hfile j g hg with ⟨-, rfl⟩ | hg
    · simp only [FatState.sizeOf, hdata, Function.update_self]
      exact Or.inl (newFile_offset_le o _ d)
    · simp only [FatState.sizeOf, Function.update_of_ne (hother j g hg)]
      exact h.near j g hg

/-- `fatfs_open` from the truncation on, when no other cursor is left beyond the new end. -/
theorem FatInv.openNode (L : CursorLaws S off) (h : FatInv off s) {o : OpenArgs Disk} {n : Nat}
    (hk : o.mode.trunc = true → (s.node n).size ≠ 0 →
      ∀ j g, s.file j = some g → (s.fd g.data).node = n → g.offset = 0)
    (ho : openNode S s o n = (.ENOERR, s')) : FatInv off s' := by
  have htrunc : FatInv off (if o.mode.trunc then s.trunc S n else s) := by
    by_cases ht : o.mode.trunc = true
    · simp only [ht, if_true]
      apply h.setNode
      intro j g hg hn
      rw [L.truncFile]
      by_cases hempty : (s.node n).size = 0
      · exact Or.inr (Or.inl hempty.symm)
      · exact Or.inr (Or.inr (hk ht hempty j g hg hn))
    · simp only [ht, Bool.false_eq_true, if_false]
      exact h
  exact htrunc.allocFile L (openNode_cases ho)

/-- The directory entry that is loaded is not in the open files. -/
@[simp] theorem load_file (s : FatState Disk Pos) (found : Found) :
    (s.load found).file = s.file := by
  unfold FatState.load
  split <;> rfl

/-- Nor is it in the table of the descriptors. -/
@[simp] theorem load_fd (s : FatState Disk Pos) (found : Found) :
    (s.load found).fd = s.fd := by
  unfold FatState.load
  split <;> rfl

/-- A lookup that allocates a node does not disturb the descriptors, since none is open on it. -/
theorem FatInv.load (h : FatInv off s) {found : Found}
    (hfresh : found.loaded.isSome → ∀ j g, s.file j = some g → (s.fd g.data).node ≠ found.node) :
    FatInv off (s.load found) := by
  unfold FatState.load
  split
  · exact h
  · rename_i e he
    apply h.setNode s.disk
    intro j g hg hn
    exact absurd hn (hfresh (by simp [he]) j g hg)

/-- A successful open keeps the invariant, whether it finds, creates or truncates. -/
theorem FatInv.fatfsOpen (L : CursorLaws S off) (h : FatInv off s) {o : OpenArgs Disk}
    (hadm : Admissible s (.open o)) (hk : KeepsCursors s (.open o))
    (ho : fatfsOpen S s o = (.ENOERR, s')) : FatInv off s' := by
  -- the lookups may have changed the disk
  have hdisk : FatInv off { s with disk := o.disk } :=
    ⟨h.pool_nodup, h.in_use, h.own, h.coherent, h.near⟩
  obtain ⟨found, hfound, hopen⟩ := fatfsOpen_cases ho
  have hload := hdisk.load (hadm found hfound)
  refine hload.openNode L ?_ hopen
  intro ht hsize j g hg hn
  rw [load_file] at hg
  rw [load_fd] at hn
  rcases hl : found.loaded with _ | e
  · -- the node was in the cache
    simp only [FatState.load, hl] at hsize
    exact hk ht found hfound hsize j g hg hn
  · exact absurd hn (hadm found hfound (by simp [hl]) j g hg)

/-! ### Runs -/

/-- **Cursor coherence.**  In a run whose calls move no end of file under the cursor of another
    descriptor, every cursor is at `f_offset`, or at the end of its file. -/
theorem cursor_coherence (L : CursorLaws S off) {cs : List (FatCall Disk)}
    (h : ((fatSystem S).restrict KeepsCursors).Run cs s) : s.Coherent off := by
  have hinv : FatInv off s := by
    apply h.invariant
    · rintro s ⟨hfile, hpool⟩
      exact .init hfile hpool
    · rintro s c s' ih ⟨⟨hadm, fuel, hcall⟩, hk⟩
      cases c with
      | «open» o => exact ih.fatfsOpen L hadm hk (Option.some.inj hcall)
      | op i c =>
        obtain ⟨⟨⟨err, ret⟩, s₁⟩, hop, heq⟩ := Option.map_eq_some_iff.mp hcall
        obtain ⟨rfl, rfl⟩ := Prod.mk.inj heq
        exact ih.fileOp L hk hop
  exact hinv.coherent

/-! ### Two descriptors of one file -/

/-- The file is opened in entry `i`, by a call that truncates nothing. -/
def openOne (i : Nat) : FatCall (BitVec 32 → Nat → UInt8) := .open (openArgs i)

/-- A vector of three bytes. -/
def threeBytes : Uio := ⟨[⟨[1, 2, 3], Iovec.three_lt⟩], 3⟩

/-- The first descriptor seeks beyond the end of the file, then the second one writes three
    bytes at the start. -/
def seekThenWrite : List (FatCall (BitVec 32 → Nat → UInt8)) :=
  [openOne 0, openOne 1, .op 0 (.lseek 5 .SEEK_SET), .op 1 (.write true threeBytes)]

/-- Does a call allocate no node? Then it can be computed without the cache. -/
def loadsNothing : FatCall Disk → Bool
  | .open o => o.found.all fun f => f.loaded.isNone
  | .op _ _ => true

/-- One successful call that allocates no node, with fuel for ten iterations of a loop. -/
def fatNext (S : FatSupport Disk Pos) (s : FatState Disk Pos) (c : FatCall Disk) :
    Option (FatState Disk Pos) :=
  if loadsNothing c then
    (fatCall S 10 s c).bind fun r => if r.1 = .ENOERR then some r.2 else none
  else none

/-- A step of the function is a step of the system, so that runs can be computed. -/
theorem step_of_fatNext {c : FatCall Disk} (h : fatNext S s c = some s') :
    (fatSystem S).step s c s' := by
  unfold fatNext at h
  split at h
  · rename_i hload
    obtain ⟨⟨err, s₁⟩, hcall, h⟩ := Option.bind_eq_some_iff.mp h
    dsimp only at h
    split at h
    · rename_i herr
      obtain rfl := Option.some.inj h
      refine ⟨?_, 10, by rw [hcall, herr]⟩
      cases c with
      | «open» o =>
        intro f hf hsome
        simp only [loadsNothing, hf, Option.all_some, Option.isNone_iff_eq_none] at hload
        simp [hload] at hsome
      | op i c => trivial
    · cases h
  · cases h

/-- A check that implies `KeepsCursors`: nothing is truncated, and no write goes beyond the end
    of its file. -/
def staysInside (s : FatState Disk Pos) : FatCall Disk → Bool
  | .open o => !o.mode.trunc
  | .op i (.write _ uio) =>
    (s.file i).all fun f => (s.startOf f).toNat + uio.data.length ≤ (s.sizeOf f).toNat
  | .op _ _ => true

/-- A call that stays inside the file keeps the cursors of all descriptors. -/
theorem keepsCursors_of_staysInside {c : FatCall Disk} (h : staysInside s c = true) :
    KeepsCursors s c := by
  cases c with
  | «open» o =>
    intro ht
    simp [staysInside, ht] at h
  | op i c =>
    cases c with
    | write mem uio =>
      intro f hf
      simp only [staysInside, hf, Option.all_some, decide_eq_true_eq] at h
      have hlt := (s.sizeOf f).isLt
      exact ⟨by omega, fun hgrow => absurd hgrow (by omega)⟩
    | lseek apos whence => trivial
    | read uio => trivial

/-- A seek, and a write over what is there, keep every cursor where its offset is. -/
theorem cursor_coherence_overwrite :
    ∃ s, ((fatSystem memSupport).restrict KeepsCursors).Run seekThenWrite s ∧
      (s.file 0).map CygFile.offset = some 5 ∧ s.Coherent id := by
  have hsome : (seekThenWrite.foldlM
      (fun s c => if staysInside s c then fatNext memSupport s c else none) (oneFile 4)).map
      (fun s => (s.file 0).map CygFile.offset) = some (some 5) := by decide +kernel
  obtain ⟨s, hs, hoffset⟩ := Option.map_eq_some_iff.mp hsome
  have hinit : ((fatSystem memSupport).restrict KeepsCursors).init (oneFile 4) :=
    ⟨fun _ => rfl, by decide⟩
  have hrun : ((fatSystem memSupport).restrict KeepsCursors).Run ([] ++ seekThenWrite) s := by
    apply LTS.Run.of_foldlM ?_ (.init hinit) hs
    intro s c s' hstep
    by_cases hin : staysInside s c = true
    · rw [if_pos hin] at hstep
      exact ⟨step_of_fatNext hstep, keepsCursors_of_staysInside hin⟩
    · rw [if_neg hin] at hstep
      cases hstep
  exact ⟨s, hrun, hoffset, cursor_coherence memSupport_cursorLaws hrun⟩

/-- **Cursor coherence fails.**  The file is empty: the seek parks the first cursor at offset 0,
    and the write moves the end of the file to offset 3. -/
theorem parked_cursor :
    ¬∀ (Disk Pos : Type) (S : FatSupport Disk Pos) (off : Pos → Nat), CursorLaws S off →
      ∀ cs s, (fatSystem S).Run cs s → s.Coherent off := by
  intro hall
  have hsome : (seekThenWrite.foldlM (fatNext memSupport) (oneFile 0)).map
      (fun s => (s.file 0, (s.fd 0).pos, (s.node (s.fd 0).node).size))
        = some (some ⟨false, 5, 0⟩, 0, 3) := by decide +kernel
  obtain ⟨s, hs, hfinal⟩ := Option.map_eq_some_iff.mp hsome
  obtain ⟨hfile, hpos, hsize⟩ := by simpa using hfinal
  have hinit : (fatSystem memSupport).init (oneFile 0) := ⟨fun _ => rfl, by decide⟩
  have hrun : (fatSystem memSupport).Run ([] ++ seekThenWrite) s :=
    LTS.Run.of_foldlM (fun _ _ _ => step_of_fatNext) (.init hinit) hs
  have hcoh := hall _ _ memSupport id memSupport_cursorLaws _ _ hrun 0 _ hfile
  simp [FatState.sizeOf, hpos, hsize] at hcoh

end Ecos.Fat
