import Ecos.Posix.Registry

namespace Ecos.Posix

open Ecos.Lib

/-!
# What one call does to the registry

* `RegStep` — every outcome of a call on the list of named semaphores: the result, the
  blocks it frees and the new list, one constructor per exit of the source;
* `semOpen_outcome`, `semClose_outcome`, `semUnlink_outcome`, `semCall_outcome` — the
  pointer code has exactly these outcomes, unless an `open_count` would overflow.

Everything later is derived from `RegStep`; the pointer code is not looked at again.
-/

/-- The exits of the calls.  `RegStep m l c r fs l'`: on the list `l` the step `c` returns
    `r`, frees the blocks `fs` (besides what it allocated and kept) and leaves `l'`. -/
inductive RegStep (semValueMax : Nat) :
    Registry → SemCall → SemRet → List Addr → Registry → Prop
  | openEmpty {l name oflag value buf new} (hname : cstr name = []) :
      RegStep semValueMax l (.semOpen name oflag value buf new)
        (.ptr ⟨SEM_FAILED, some .EINVAL⟩) [] l
  | openExists {l₁ l₂ a v name oflag value buf new} (hname : cstr name ≠ [])
      (hv : v.name = cstr name) (hflag : (oflag.creat && oflag.excl) = true) :
      RegStep semValueMax (l₁ ++ (a, v) :: l₂) (.semOpen name oflag value buf new)
        (.ptr ⟨SEM_FAILED, some .EEXIST⟩) [] (l₁ ++ (a, v) :: l₂)
  | openFound {l₁ l₂ a v name oflag value buf new} (hname : cstr name ≠ [])
      (hv : v.name = cstr name) (hflag : (oflag.creat && oflag.excl) = false) :
      RegStep semValueMax (l₁ ++ (a, v) :: l₂) (.semOpen name oflag value buf new)
        (.ptr ⟨semAddr a, none⟩) []
        (l₁ ++ (a, { v with openCount := v.openCount + 1 }) :: l₂)
  | openNoEnt {l name oflag value buf new} (hname : cstr name ≠ [])
      (hmiss : ∀ x ∈ l, x.2.name ≠ cstr name) (hflag : oflag.creat = false) :
      RegStep semValueMax l (.semOpen name oflag value buf new)
        (.ptr ⟨SEM_FAILED, some .ENOENT⟩) [] l
  | openNoMemName {l name oflag value buf new} (hname : cstr name ≠ [])
      (hmiss : ∀ x ∈ l, x.2.name ≠ cstr name) (hflag : oflag.creat = true)
      (hbuf : buf = 0 ∨ buf ∈ l.blocks) :
      RegStep semValueMax l (.semOpen name oflag value buf new)
        (.ptr ⟨SEM_FAILED, some .ENOMEM⟩) [] l
  | openNoMemRecord {l name oflag value buf new} (hname : cstr name ≠ [])
      (hmiss : ∀ x ∈ l, x.2.name ≠ cstr name) (hflag : oflag.creat = true)
      (hbuf : buf ≠ 0 ∧ buf ∉ l.blocks) (hnew : new = 0 ∨ new = buf ∨ new ∈ l.blocks) :
      RegStep semValueMax l (.semOpen name oflag value buf new)
        (.ptr ⟨SEM_FAILED, some .ENOMEM⟩) [buf] l
  | openBadValue {l name oflag value buf new} (hname : cstr name ≠ [])
      (hmiss : ∀ x ∈ l, x.2.name ≠ cstr name) (hflag : oflag.creat = true)
      (hbuf : buf ≠ 0 ∧ buf ∉ l.blocks) (hnew : new ≠ 0 ∧ new ≠ buf ∧ new ∉ l.blocks)
      (hvalue : semValueMax < value) :
      RegStep semValueMax l (.semOpen name oflag value buf new)
        (.ptr ⟨SEM_FAILED, some .EINVAL⟩) [buf, new] l
  | openNew {l name oflag value buf new} (hname : cstr name ≠ [])
      (hmiss : ∀ x ∈ l, x.2.name ≠ cstr name) (hflag : oflag.creat = true)
      (hbuf : buf ≠ 0 ∧ buf ∉ l.blocks) (hnew : new ≠ 0 ∧ new ≠ buf ∧ new ∉ l.blocks)
      (hvalue : value ≤ semValueMax) :
      RegStep semValueMax l (.semOpen name oflag value buf new) (.ptr ⟨semAddr new, none⟩) []
        (l ++ [(new, ⟨buf, cstr name, .new value, 1⟩)])
  | closeUnknown {l sem} (hmiss : ∀ x ∈ l, sem ≠ semAddr x.1) :
      RegStep semValueMax l (.semClose sem) (.int ⟨-1, some .EINVAL⟩) [] l
  | closeBusy {l₁ l₂ a v} (hlast : v.openCount = 1) (hname : v.name = [])
      (hwait : v.sem.waiting ≠ 0) :
      RegStep semValueMax (l₁ ++ (a, v) :: l₂) (.semClose (semAddr a))
        (.int ⟨-1, some .EBUSY⟩) [] (l₁ ++ (a, v) :: l₂)
  | closeLast {l₁ l₂ a v} (hlast : v.openCount = 1) (hname : v.name = [])
      (hwait : v.sem.waiting = 0) :
      RegStep semValueMax (l₁ ++ (a, v) :: l₂) (.semClose (semAddr a)) (.int ⟨0, none⟩)
        [v.buf, a] (l₁ ++ l₂)
  | closeDec {l₁ l₂ a v} (hnot : ¬(v.openCount = 1 ∧ v.name = [])) (hpos : 0 < v.openCount) :
      RegStep semValueMax (l₁ ++ (a, v) :: l₂) (.semClose (semAddr a)) (.int ⟨0, none⟩) []
        (l₁ ++ (a, { v with openCount := v.openCount - 1 }) :: l₂)
  | closeZero {l₁ l₂ a v} (hle : v.openCount ≤ 0) :
      RegStep semValueMax (l₁ ++ (a, v) :: l₂) (.semClose (semAddr a)) (.int ⟨0, none⟩) []
        (l₁ ++ (a, v) :: l₂)
  | unlinkEmpty {l name} (hname : cstr name = []) :
      RegStep semValueMax l (.semUnlink name) (.int ⟨-1, some .ENOENT⟩) [] l
  | unlinkUnknown {l name} (hname : cstr name ≠ []) (hmiss : ∀ x ∈ l, x.2.name ≠ cstr name) :
      RegStep semValueMax l (.semUnlink name) (.int ⟨-1, some .ENOENT⟩) [] l
  | unlinkBusy {l₁ l₂ a v name} (hname : cstr name ≠ []) (hv : v.name = cstr name)
      (hzero : v.openCount = 0) (hwait : v.sem.waiting ≠ 0) :
      RegStep semValueMax (l₁ ++ (a, v) :: l₂) (.semUnlink name) (.int ⟨-1, some .EBUSY⟩) []
        (l₁ ++ (a, v) :: l₂)
  | unlinkFree {l₁ l₂ a v name} (hname : cstr name ≠ []) (hv : v.name = cstr name)
      (hzero : v.openCount = 0) (hwait : v.sem.waiting = 0) :
      RegStep semValueMax (l₁ ++ (a, v) :: l₂) (.semUnlink name) (.int ⟨0, none⟩)
        [v.buf, a] (l₁ ++ l₂)
  | unlinkMark {l₁ l₂ a v name} (hname : cstr name ≠ []) (hv : v.name = cstr name)
      (hopen : v.openCount ≠ 0) :
      RegStep semValueMax (l₁ ++ (a, v) :: l₂) (.semUnlink name) (.int ⟨0, none⟩) []
        (l₁ ++ (a, { v with name := [] }) :: l₂)
  | kernelMiss {l sem state} (hmiss : ∀ x ∈ l, sem ≠ semAddr x.1) :
      RegStep semValueMax l (.kernel sem state) .none [] l
  | kernelHit {l₁ l₂ a v state} :
      RegStep semValueMax (l₁ ++ (a, v) :: l₂) (.kernel (semAddr a) state) .none []
        (l₁ ++ (a, { v with sem := state }) :: l₂)

/-- The step opens a semaphore whose `open_count` cannot be incremented any more, which leaves the
    run undefined. -/
def Overflows (l : Registry) : SemCall → Prop
  | .semOpen name oflag .. => cstr name ≠ [] ∧ (oflag.creat && oflag.excl) = false ∧
      ∃ x ∈ l, x.2.name = cstr name ∧ 2 ^ 31 - 1 ≤ x.2.openCount
  | _ => False

/-- What the state after a step owes to the list after it, and which blocks the step has freed. -/
structure StepOf (s s' : SemState) (fs : List Addr) (l' : Registry) : Prop where
  rep : Rep s' l'
  frees : s'.heap.frees = s.heap.frees ++ fs

variable {m : Nat} {s : SemState} {l l₁ l₂ : Registry} {a : Addr} {v : RegNode}

/-- A step that overflows needs a count at its maximum, and so as many opens before it. -/
theorem Overflows.atIntMax {c : SemCall} (h : Overflows l c) :
    ∃ x ∈ l, 2 ^ 31 - 1 ≤ x.2.openCount := by
  cases c with
  | semOpen =>
    obtain ⟨-, -, x, hx, -, hmax⟩ := h
    exact ⟨x, hx, hmax⟩
  | _ => exact h.elim

/-- A step that changes nothing. -/
theorem StepOf.refl (h : Rep s l) : StepOf s s [] l := ⟨h, by simp⟩

/-- Taking and releasing the lock around a step leaves the step what it is. -/
theorem StepOf.locked {s' : SemState} {fs : List Addr}
    (h : StepOf { s with nameMutex := true } s' fs l) : StepOf s s'.unlock fs l :=
  ⟨h.rep.setMutex false, h.frees⟩

/-- A memory with the same blocks represents the same list, wherever the mutex stands. -/
theorem Rep.of_same {s' : SemState} (h : Rep s l) (hp : s'.psemList = s.psemList)
    (hl : s'.heap.live = s.heap.live) (hc : s'.heap.cell = s.heap.cell) : Rep s' l := by
  refine ⟨?_, fun a => ?_, h.nodup⟩
  · rw [hp]
    exact h.seg.congr fun x hx => h.agree hx (by rw [hc]) (by rw [hc])
  · rw [hl]; exact h.live a

/-- `free` of a block that `malloc` has just handed out undoes the `malloc`. -/
theorem free_malloc {h₁ : Heap Block} {p : Addr} {b : Block}
    (hm : s.heap.malloc p b = some h₁) :
    ∃ s', SemState.free { s with heap := h₁ } p = some s' ∧ s'.psemList = s.psemList ∧
      s'.heap.live = s.heap.live ∧ s'.heap.cell = s.heap.cell ∧
      s'.heap.frees = s.heap.frees ++ [p] := by
  obtain ⟨-, hp, hl, hf, hc⟩ := Heap.malloc_eq_some.mp hm
  obtain ⟨h₂, hs₂, hl₂, hf₂, hc₂⟩ := exists_free (s := { s with heap := h₁ }) (a := p)
    (by rw [hl]; simp)
  dsimp only at hl₂ hf₂ hc₂
  have hnone : s.heap.cell p = none := by
    cases hcell : s.heap.cell p with
    | none => rfl
    | some b => exact absurd (Heap.mem_live_of_cell hcell) hp
  refine ⟨_, hs₂, rfl, ?_, ?_, ?_⟩
  · show h₂.live = _
    rw [hl₂, hl, Finset.erase_insert hp]
  · show h₂.cell = _
    rw [hc₂, hc, Function.update_idem, ← hnone, Function.update_eq_self]
  · show h₂.frees = _
    rw [hf₂, hf]

/-- Freeing a name buffer and a record that `malloc` has just handed out, in this order,
    undoes both. -/
theorem free_both {h₁ h₂ : Heap Block} {buf new : Addr} {b₁ b₂ : Block}
    (hm₁ : s.heap.malloc buf b₁ = some h₁) (hm₂ : h₁.malloc new b₂ = some h₂) :
    ∃ s₁ s₂, SemState.free { s with heap := h₂ } buf = some s₁ ∧ s₁.free new = some s₂ ∧
      s₂.psemList = s.psemList ∧ s₂.heap.live = s.heap.live ∧ s₂.heap.cell = s.heap.cell ∧
      s₂.heap.frees = s.heap.frees ++ [buf, new] := by
  obtain ⟨-, hbuf, hl₁, hf₁, hc₁⟩ := Heap.malloc_eq_some.mp hm₁
  obtain ⟨-, hnew, hl₂, hf₂, hc₂⟩ := Heap.malloc_eq_some.mp hm₂
  rw [hl₁, Finset.mem_insert, not_or] at hnew
  obtain ⟨h₃, hs₃, hl₃, hf₃, hc₃⟩ := exists_free (s := { s with heap := h₂ }) (a := buf)
    (by rw [hl₂, hl₁]; simp)
  dsimp only at hl₃ hf₃ hc₃
  obtain ⟨h₄, hs₄, hl₄, hf₄, hc₄⟩ := exists_free (s := { s with heap := h₃ }) (a := new)
    (by rw [hl₃, hl₂]; simp [hnew.1])
  dsimp only at hl₄ hf₄ hc₄
  -- a block that is not live has no contents
  have hnone : ∀ p, p ∉ s.heap.live → s.heap.cell p = none := by
    intro p hp
    cases hcell : s.heap.cell p with
    | none => rfl
    | some b => exact absurd (Heap.mem_live_of_cell hcell) hp
  refine ⟨{ s with heap := h₃ }, { s with heap := h₄ }, hs₃, hs₄, rfl, ?_, ?_, ?_⟩
  · show h₄.live = _
    ext p
    rw [hl₄, hl₃, hl₂, hl₁]
    simp only [Finset.mem_erase, Finset.mem_insert]
    constructor
    · rintro ⟨h₁, h₂, h₃ | h₃ | h₃⟩
      · exact absurd h₃ h₁
      · exact absurd h₃ h₂
      · exact h₃
    · intro hp
      exact ⟨ne_of_mem_of_not_mem hp hnew.2, ne_of_mem_of_not_mem hp hbuf, Or.inr (Or.inr hp)⟩
  · show h₄.cell = _
    funext p
    rw [hc₄, hc₃, hc₂, hc₁]
    by_cases hp₁ : p = new
    · subst hp₁; simp [hnone p hnew.2]
    · by_cases hp₂ : p = buf
      · subst hp₂; simp [hp₁, hnone p hbuf]
      · simp [hp₁, hp₂]
  · show h₄.frees = _
    rw [hf₄, hf₃, hf₂, hf₁, List.append_assoc]
    rfl

/-- The mutex is free, and is taken. -/
theorem lock_eq (hm : s.nameMutex = false) : s.lock = some { s with nameMutex := true } := by
  simp [SemState.lock, hm]

/-! ### `sem_open` -/

/-- The named semaphore exists: refused with `EEXIST`, or opened once more. -/
theorem openExisting_outcome (h : Rep s (l₁ ++ (a, v) :: l₂)) {name : List UInt8}
    (hname : cstr name ≠ []) (hv : v.name = cstr name) (oflag : OFlag) (value : Nat)
    (buf new : Addr) :
    (openExisting s a oflag = none ∧
        Overflows (l₁ ++ (a, v) :: l₂) (.semOpen name oflag value buf new)) ∨
      ∃ r s' fs l', openExisting s a oflag = some (r, s') ∧
        RegStep m (l₁ ++ (a, v) :: l₂) (.semOpen name oflag value buf new) (.ptr r) fs l' ∧
        StepOf s s' fs l' := by
  obtain ⟨q, b, -, hcell, -, -⟩ := h.cells
  have hnode := node_eq_some.mpr hcell
  cases hflag : oflag.creat && oflag.excl with
  | true =>
    refine Or.inr ⟨_, s, [], _, ?_, .openExists hname hv hflag, .refl h⟩
    simp [openExisting, hflag]
  | false =>
    rcases lt_or_ge v.openCount (2 ^ 31 - 1) with hlt | hge
    · obtain ⟨s', hs', hrep, -, hfr⟩ := h.setNode hnode v.sem (v.openCount + 1)
      refine Or.inr ⟨_, s', [], _, ?_, .openFound hname hv hflag, hrep, by simp [hfr]⟩
      simp [openExisting, hflag, hnode, incInt_of_lt hlt, hs']
    · refine Or.inl ⟨?_, hname, hflag, (a, v), by simp, hv, hge⟩
      simp [openExisting, hflag, hnode, incInt_of_ge hge]

/-- The named semaphore does not exist: refused, out of memory, or appended to the list. -/
theorem openMissing_outcome (h : Rep s l) {name : List UInt8} (hname : cstr name ≠ [])
    (hmiss : ∀ x ∈ l, x.2.name ≠ cstr name) (oflag : OFlag) (value : Nat) (buf new : Addr) :
    ∃ r s' fs l',
      openMissing m s ((l.map Prod.fst).getLastD s.psemList) name oflag value buf new
        = some (r, s') ∧
      RegStep m l (.semOpen name oflag value buf new) (.ptr r) fs l' ∧ StepOf s s' fs l' := by
  cases hflag : oflag.creat with
  | false =>
    refine ⟨_, s, [], _, ?_, .openNoEnt hname hmiss hflag, .refl h⟩
    simp [openMissing, hflag]
  | true =>
    cases hm₁ : s.heap.malloc buf (.chars []) with
    | none =>
      have hbuf := Heap.malloc_eq_none.mp hm₁
      rw [h.live] at hbuf
      refine ⟨_, s, [], _, ?_, .openNoMemName hname hmiss hflag hbuf, .refl h⟩
      simp [openMissing, hflag, hm₁]
    | some h₁ =>
      obtain ⟨hbuf0, hbuf, hl₁, hfr₁, hc₁⟩ := Heap.malloc_eq_some.mp hm₁
      have hbuf' : buf ≠ 0 ∧ buf ∉ l.blocks := ⟨hbuf0, fun hb => hbuf ((h.live _).mpr hb)⟩
      cases hm₂ : h₁.malloc new (.semName ⟨0, .new 0, 0, 0⟩) with
      | none =>
        have hnew := Heap.malloc_eq_none.mp hm₂
        rw [hl₁, Finset.mem_insert, h.live] at hnew
        obtain ⟨s', hs', hp', hl', hc', hfr'⟩ := free_malloc hm₁
        refine ⟨_, s', [buf], l, ?_, .openNoMemRecord hname hmiss hflag hbuf' hnew,
          h.of_same hp' hl' hc', hfr'⟩
        simp [openMissing, hflag, hm₁, hm₂, hs']
      | some h₂ =>
        obtain ⟨hnew0, hnew, hl₂, hfr₂, hc₂⟩ := Heap.malloc_eq_some.mp hm₂
        rw [hl₁, Finset.mem_insert, not_or, h.live] at hnew
        have hnew' : new ≠ 0 ∧ new ≠ buf ∧ new ∉ l.blocks := ⟨hnew0, hnew⟩
        rcases Nat.lt_or_ge m value with hgt | hle
        · -- `sem_init` refuses the value
          obtain ⟨s₁, s₂, hs₁, hs₂, hp₂, hl₂, hc₂, hfr₂⟩ := free_both hm₁ hm₂
          refine ⟨_, s₂, [buf, new], l, ?_, .openBadValue hname hmiss hflag hbuf' hnew' hgt,
            h.of_same hp₂ hl₂ hc₂, hfr₂⟩
          simp [openMissing, hflag, hm₁, hm₂, semInit_of_gt hgt, hs₁, hs₂]
        · obtain ⟨s₁, s₂, s', hs₁, hs₂, hs₃, hrep, -, hfr⟩ :=
            h.insertNode hm₁ hm₂ name (.new value)
          refine ⟨_, s', [], _, ?_, .openNew hname hmiss hflag hbuf' hnew' hle, hrep,
            by simp [hfr]⟩
          simp [openMissing, hflag, hm₁, hm₂, semInit_of_le hle, hs₁, hs₂, hs₃,
            -List.getLastD_eq_getLast?]

/-- **`sem_open`.**  Every call has one of the outcomes of `RegStep`, except where a count
    overflows. -/
theorem semOpen_outcome (h : Rep s l) (hm : s.nameMutex = false) (name : List UInt8)
    (oflag : OFlag) (value : Nat) (buf new : Addr) :
    (semOpen m s name oflag value buf new = none ∧
        Overflows l (.semOpen name oflag value buf new)) ∨
      ∃ r s' fs l', semOpen m s name oflag value buf new = some (r, s') ∧
        RegStep m l (.semOpen name oflag value buf new) (.ptr r) fs l' ∧ StepOf s s' fs l' ∧
        s'.nameMutex = false := by
  by_cases hname : cstr name = []
  · refine Or.inr ⟨_, s, [], l, ?_, .openEmpty hname, .refl h, hm⟩
    simp [semOpen, strlen_eq_zero.mpr hname]
  have hlen : strlen name ≠ 0 := fun h0 => hname (strlen_eq_zero.mp h0)
  have hk : Rep { s with nameMutex := true } l := h.setMutex true
  rcases hk.searchName name with ⟨l₁, a, v, l₂, rfl, hv, hs⟩ | ⟨hmiss, hs⟩
  · rcases openExisting_outcome (m := m) hk hname hv oflag value buf new with
      ⟨hnone, hmax⟩ | ⟨r, s', fs, l', hs', hstep, hof⟩
    · refine Or.inl ⟨?_, hmax⟩
      simp [semOpen, hlen, lock_eq hm, hs, h.ne_null, hnone]
    · refine Or.inr ⟨r, s'.unlock, fs, l', ?_, hstep, hof.locked, rfl⟩
      simp [semOpen, hlen, lock_eq hm, hs, h.ne_null, hs']
  · obtain ⟨r, s', fs, l', hs', hstep, hof⟩ :=
      openMissing_outcome (m := m) hk hname hmiss oflag value buf new
    refine Or.inr ⟨r, s'.unlock, fs, l', ?_, hstep, hof.locked, rfl⟩
    simp [semOpen, hlen, lock_eq hm, hs, hs', -List.getLastD_eq_getLast?]

/-! ### `sem_close` -/

/-- The semaphore is on the list: one open less, or freed with its last one, or busy. -/
theorem closeExisting_outcome (h : Rep s (l₁ ++ (a, v) :: l₂)) :
    ∃ r s' fs l', closeExisting s a ((l₁.map Prod.fst).getLastD s.psemList) = some (r, s') ∧
      RegStep m (l₁ ++ (a, v) :: l₂) (.semClose (semAddr a)) (.int r) fs l' ∧
      StepOf s s' fs l' := by
  obtain ⟨q, b, -, hcell, hb, hname⟩ := h.cells
  have hnode := node_eq_some.mpr hcell
  have hchars := chars_eq_some.mpr hb
  by_cases hlast : v.openCount = 1 ∧ strlen b = 0
  · have hempty : v.name = [] := hname ▸ strlen_eq_zero.mp hlast.2
    by_cases hwait : v.sem.waiting = 0
    · obtain ⟨s', hs', hrep, -, hfr⟩ := h.remove
      refine ⟨_, s', _, _, ?_, .closeLast hlast.1 hempty hwait, hrep, hfr⟩
      simp [closeExisting, hnode, hchars, hlast, semDestroy_of_idle hwait, hs',
        -List.getLastD_eq_getLast?]
    · refine ⟨_, s, [], _, ?_, .closeBusy hlast.1 hempty hwait, .refl h⟩
      simp [closeExisting, hnode, hchars, hlast, semDestroy_of_waiting hwait]
  · have hnot : ¬(v.openCount = 1 ∧ v.name = []) := by
      rw [← hname, ← strlen_eq_zero]; exact hlast
    by_cases hpos : 0 < v.openCount
    · obtain ⟨s', hs', hrep, -, hfr⟩ := h.setNode hnode v.sem (v.openCount - 1)
      refine ⟨_, s', [], _, ?_, .closeDec hnot hpos, hrep, by simp [hfr]⟩
      simp [closeExisting, hnode, hchars, hlast, hpos, hs']
    · refine ⟨_, s, [], _, ?_, .closeZero (not_lt.mp hpos), .refl h⟩
      simp [closeExisting, hnode, hchars, hlast, hpos]

/-- **`sem_close`.**  Every call has one of the outcomes of `RegStep`. -/
theorem semClose_outcome (h : Rep s l) (hm : s.nameMutex = false) (sem : Addr) :
    ∃ r s' fs l', semClose s sem = some (r, s') ∧
      RegStep m l (.semClose sem) (.int r) fs l' ∧ StepOf s s' fs l' ∧
      s'.nameMutex = false := by
  have hk : Rep { s with nameMutex := true } l := h.setMutex true
  rcases hk.searchSem sem with ⟨l₁, a, v, l₂, rfl, rfl, hs⟩ | ⟨hmiss, hs⟩
  · obtain ⟨r, s', fs, l', hs', hstep, hof⟩ := closeExisting_outcome (m := m) hk
    refine ⟨r, s'.unlock, fs, l', ?_, hstep, hof.locked, rfl⟩
    simp [semClose, lock_eq hm, hs, h.ne_null, hs', -List.getLastD_eq_getLast?]
  · refine ⟨_, _, [], l, ?_, .closeUnknown hmiss, (StepOf.refl hk).locked, rfl⟩
    simp [semClose, lock_eq hm, hs]

/-! ### `sem_unlink` -/

/-- The named semaphore exists: its name is emptied, or it is freed, or busy. -/
theorem unlinkExisting_outcome (h : Rep s (l₁ ++ (a, v) :: l₂)) {name : List UInt8}
    (hname : cstr name ≠ []) (hv : v.name = cstr name) :
    ∃ r s' fs l', unlinkExisting s a ((l₁.map Prod.fst).getLastD s.psemList) = some (r, s') ∧
      RegStep m (l₁ ++ (a, v) :: l₂) (.semUnlink name) (.int r) fs l' ∧
      StepOf s s' fs l' := by
  obtain ⟨q, b, -, hcell, hb, -⟩ := h.cells
  have hnode := node_eq_some.mpr hcell
  have hchars := chars_eq_some.mpr hb
  by_cases hzero : v.openCount = 0
  · by_cases hwait : v.sem.waiting = 0
    · obtain ⟨s', hs', hrep, -, hfr⟩ := h.remove
      refine ⟨_, s', _, _, ?_, .unlinkFree hname hv hzero hwait, hrep, hfr⟩
      simp [unlinkExisting, hnode, hzero, semDestroy_of_idle hwait, hs',
        -List.getLastD_eq_getLast?]
    · refine ⟨_, s, [], _, ?_, .unlinkBusy hname hv hzero hwait, .refl h⟩
      simp [unlinkExisting, hnode, hzero, semDestroy_of_waiting hwait]
  · obtain ⟨s', hs', hrep, -, hfr⟩ := h.setName (b.set 0 0)
    rw [cstr_set_zero] at hrep
    refine ⟨_, s', [], _, ?_, .unlinkMark hname hv hzero, hrep, by simp [hfr]⟩
    simp [unlinkExisting, hnode, hchars, hzero, hs']

/-- **`sem_unlink`.**  Every call has one of the outcomes of `RegStep`. -/
theorem semUnlink_outcome (h : Rep s l) (hm : s.nameMutex = false) (name : List UInt8) :
    ∃ r s' fs l', semUnlink s name = some (r, s') ∧
      RegStep m l (.semUnlink name) (.int r) fs l' ∧ StepOf s s' fs l' ∧
      s'.nameMutex = false := by
  by_cases hname : cstr name = []
  · refine ⟨_, s, [], l, ?_, .unlinkEmpty hname, .refl h, hm⟩
    simp [semUnlink, strlen_eq_zero.mpr hname]
  have hlen : strlen name ≠ 0 := fun h0 => hname (strlen_eq_zero.mp h0)
  have hk : Rep { s with nameMutex := true } l := h.setMutex true
  rcases hk.searchName name with ⟨l₁, a, v, l₂, rfl, hv, hs⟩ | ⟨hmiss, hs⟩
  · obtain ⟨r, s', fs, l', hs', hstep, hof⟩ := unlinkExisting_outcome (m := m) hk hname hv
    refine ⟨r, s'.unlock, fs, l', ?_, hstep, hof.locked, rfl⟩
    simp [semUnlink, hlen, lock_eq hm, hs, h.ne_null, hs', -List.getLastD_eq_getLast?]
  · refine ⟨_, _, [], l, ?_, .unlinkUnknown hname hmiss, (StepOf.refl hk).locked, rfl⟩
    simp [semUnlink, hlen, lock_eq hm, hs]

/-! ### Any step -/

/-- **One step of the module.**  On a represented list every call returns, with one of the
    outcomes of `RegStep` and the lock free, unless an `open_count` is at its maximum. -/
theorem semCall_outcome (h : Rep s l) (hm : s.nameMutex = false) (c : SemCall) :
    (semCall m s c = none ∧ Overflows l c) ∨
      ∃ r s' fs l', semCall m s c = some (r, s') ∧ RegStep m l c r fs l' ∧
        StepOf s s' fs l' ∧ s'.nameMutex = false := by
  cases c with
  | semOpen name oflag value buf new =>
    rcases semOpen_outcome (m := m) h hm name oflag value buf new with
      ⟨hnone, hmax⟩ | ⟨r, s', fs, l', hs', hstep, hof, hmu⟩
    · exact Or.inl ⟨by simp [semCall, hnone], hmax⟩
    · exact Or.inr ⟨_, s', fs, l', by simp [semCall, hs'], hstep, hof, hmu⟩
  | semClose sem =>
    obtain ⟨r, s', fs, l', hs', hstep, hof, hmu⟩ := semClose_outcome (m := m) h hm sem
    exact Or.inr ⟨_, s', fs, l', by simp [semCall, hs'], hstep, hof, hmu⟩
  | semUnlink name =>
    obtain ⟨r, s', fs, l', hs', hstep, hof, hmu⟩ := semUnlink_outcome (m := m) h hm name
    exact Or.inr ⟨_, s', fs, l', by simp [semCall, hs'], hstep, hof, hmu⟩
  | kernel sem state =>
    right
    rcases h.searchSem sem with ⟨l₁, a, v, l₂, rfl, rfl, hs⟩ | ⟨hmiss, hs⟩
    · obtain ⟨q, b, -, hcell, -, -⟩ := h.cells
      have hnode := node_eq_some.mpr hcell
      obtain ⟨s', hs', hrep, hmu, hfr⟩ := h.setNode hnode state v.openCount
      refine ⟨.none, s', [], _, ?_, .kernelHit, ⟨hrep, by simp [hfr]⟩, hmu.trans hm⟩
      have hs'' : s.setNode a ⟨v.buf, state, v.openCount, q⟩ = some s' := hs'
      simp [semCall, hs, h.ne_null, hnode, hs'']
    · exact ⟨.none, s, [], l, by simp [semCall, hs], .kernelMiss hmiss, .refl h, hm⟩

end Ecos.Posix
