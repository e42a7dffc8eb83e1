import Ecos.Posix.RegistryInvariant

namespace Ecos.Posix

open Ecos.Lib

/-!
# Failing calls

Which calls of the named-semaphore module fail, and that a failing call changes nothing.

* `refusal` — the reason to refuse a call, read off the list of named semaphores;
* `RegStep.failure` — a call fails exactly when there is one, and that is its `errno`;
* `semOpen_failed`, `semClose_failed`, `semUnlink_failed` — on a failing path the pointer code
  undoes what it did to the memory;
* `failed_calls` — both in every reached state, and the lock is free after every call.
-/

/-- The `errno` of a call that returns its failure value; `none` for other results. -/
def SemRet.failure : SemRet → Option (Option Errno)
  | .ptr r => if r.val = SEM_FAILED then Option.some r.errno else Option.none
  | .int r => if r.val = -1 then Option.some r.errno else Option.none
  | .none => Option.none

/-- The reason to refuse a call, if there is one, read off the list before it. -/
def refusal (semValueMax : Nat) (l : Registry) : SemCall → Option Errno
  | .semOpen name oflag value buf new =>
    if cstr name = [] then some .EINVAL
    else match l.find? fun x => x.2.name = cstr name with
      | some _ => if oflag.creat && oflag.excl then some .EEXIST else none
      | none =>
        if oflag.creat = false then some .ENOENT
        -- `malloc` of the name, then of the record
        else if buf = 0 ∨ buf ∈ l.blocks then some .ENOMEM
        else if new = 0 ∨ new = buf ∨ new ∈ l.blocks then some .ENOMEM
        else if semValueMax < value then some .EINVAL
        else none
  | .semClose sem =>
    match l.find? fun x => sem = semAddr x.1 with
    | none => some .EINVAL
    | some (_, v) =>
      if v.openCount = 1 ∧ v.name = [] ∧ v.sem.waiting ≠ 0 then some .EBUSY else none
  | .semUnlink name =>
    if cstr name = [] then some .ENOENT
    else match l.find? fun x => x.2.name = cstr name with
      | none => some .ENOENT
      | some (_, v) => if v.openCount = 0 ∧ v.sem.waiting ≠ 0 then some .EBUSY else none
  | .kernel .. => none

variable {m k : Nat} {s s' : SemState} {l l' l₁ l₂ : Registry} {a : Addr} {v : RegNode}

/-! ### Which calls fail -/

/-- The one element of a list with a property is what a search finds. -/
theorem find?_of_unique {α : Type} {p : α → Bool} {l : List α} {x : α} (hx : x ∈ l)
    (hp : p x = true) (huniq : ∀ y ∈ l, p y = true → y = x) : l.find? p = some x := by
  cases hfind : l.find? p with
  | none => exact absurd hp (by simpa using List.find?_eq_none.mp hfind x hx)
  | some y =>
    rw [huniq y (List.mem_of_find?_eq_some hfind) (List.find?_some hfind)]

/-- The list has one semaphore of a name that is not empty. -/
theorem RegInv.find_name (h : RegInv k (l₁ ++ (a, v) :: l₂)) {name : List UInt8}
    (hname : cstr name ≠ []) (hv : v.name = cstr name) :
    (l₁ ++ (a, v) :: l₂).find? (fun x => x.2.name = cstr name) = some (a, v) := by
  have hmem : (a, v) ∈ l₁ ++ (a, v) :: l₂ := by simp
  apply find?_of_unique hmem (by simpa using hv)
  intro y hy hyn
  have hyn : y.2.name = cstr name := by simpa using hyn
  exact h.eq_of_name hy hmem (hyn ▸ hname) (hyn.trans hv.symm)

/-- The list has one semaphore at an address, the one that the search finds. -/
theorem Rep.find_sem (h : Rep s (l₁ ++ (a, v) :: l₂)) :
    (l₁ ++ (a, v) :: l₂).find? (fun x => semAddr a = semAddr x.1) = some (a, v) := by
  have hmem : (a, v) ∈ l₁ ++ (a, v) :: l₂ := by simp
  apply find?_of_unique hmem (by simp)
  intro y hy hya
  have hya : semAddr a = semAddr y.1 := by simpa using hya
  have heq : y.1 = a := (Nat.add_right_cancel hya).symm
  have hnodup : ((l₁ ++ (a, v) :: l₂).map Prod.fst).Nodup := h.nodup.of_append_left
  exact List.inj_on_of_nodup_map hnodup hy hmem heq

/-- No semaphore has the name, and none is found. -/
theorem find_name_none {name : List UInt8} (hmiss : ∀ x ∈ l, x.2.name ≠ cstr name) :
    l.find? (fun x => x.2.name = cstr name) = none := by
  rw [List.find?_eq_none]
  intro x hx
  simpa using hmiss x hx

/-- **Which calls fail.**  A call fails exactly when there is a reason to refuse it, and stores
    that reason in `errno`. -/
theorem RegStep.failure (hrep : Rep s l) (hinv : RegInv k l) {c : SemCall} {r : SemRet}
    {fs : List Addr} (h : RegStep m l c r fs l') : r.failure = (refusal m l c).map some := by
  -- the address of a semaphore is not `SEM_FAILED`
  have hsem (p : Addr) : semAddr p ≠ SEM_FAILED := Nat.succ_ne_zero _
  cases h with
  | openEmpty hname => simp [refusal, SemRet.failure, hname]
  | openExists hname hv hflag =>
    simp [refusal, SemRet.failure, hname, hinv.find_name hname hv, hflag]
  | openFound hname hv hflag =>
    simp [refusal, SemRet.failure, hname, hinv.find_name hname hv, hflag, hsem]
  | openNoEnt hname hmiss hflag =>
    simp [refusal, SemRet.failure, hname, find_name_none hmiss, hflag]
  | openNoMemName hname hmiss hflag hbuf =>
    simp [refusal, SemRet.failure, hname, find_name_none hmiss, hflag, hbuf]
  | openNoMemRecord hname hmiss hflag hbuf hnew =>
    simp [refusal, SemRet.failure, hname, find_name_none hmiss, hflag, hbuf, hnew]
  | openBadValue hname hmiss hflag hbuf hnew hvalue =>
    simp [refusal, SemRet.failure, hname, find_name_none hmiss, hflag, hbuf, hnew, hvalue]
  | openNew hname hmiss hflag hbuf hnew hvalue =>
    simp [refusal, SemRet.failure, hname, find_name_none hmiss, hflag, hbuf, hnew, hsem,
      Nat.not_lt.mpr hvalue]
  | @closeUnknown l sem hmiss =>
    have hnone : l.find? (fun x => sem = semAddr x.1) = none := by
      rw [List.find?_eq_none]
      intro x hx
      simpa using hmiss x hx
    simp [refusal, SemRet.failure, hnone]
  | closeBusy hlast hname hwait =>
    simp [refusal, SemRet.failure, hrep.find_sem, hlast, hname, hwait]
  | closeLast hlast hname hwait =>
    simp [refusal, SemRet.failure, hrep.find_sem, hwait]
  | @closeDec l₁ l₂ a v hnot hpos =>
    -- only the last close of a nameless semaphore with waiters is refused
    have hno : ¬(v.openCount = 1 ∧ v.name = [] ∧ v.sem.waiting ≠ 0) :=
      fun h => hnot ⟨h.1, h.2.1⟩
    simp only [refusal, hrep.find_sem, if_neg hno]
    rfl
  | @closeZero l₁ l₂ a v hle =>
    have hno : ¬(v.openCount = 1 ∧ v.name = [] ∧ v.sem.waiting ≠ 0) := by
      intro h
      have := h.1
      omega
    simp only [refusal, hrep.find_sem, if_neg hno]
    rfl
  | unlinkEmpty hname => simp [refusal, SemRet.failure, hname]
  | unlinkUnknown hname hmiss =>
    simp [refusal, SemRet.failure, hname, find_name_none hmiss]
  | unlinkBusy hname hv hzero hwait =>
    simp [refusal, SemRet.failure, hname, hinv.find_name hname hv, hzero, hwait]
  | unlinkFree hname hv hzero hwait =>
    simp [refusal, SemRet.failure, hname, hinv.find_name hname hv, hwait]
  | unlinkMark hname hv hopen =>
    simp [refusal, SemRet.failure, hname, hinv.find_name hname hv, hopen]
  | kernelMiss => rfl
  | kernelHit => rfl

/-! ### What a failing call leaves -/

/-- The list, every record and buffer, and the live blocks are as before; only the mutex is not
    spoken of. -/
structure Unchanged (s s' : SemState) : Prop where
  psemList : s'.psemList = s.psemList
  live : s'.heap.live = s.heap.live
  cell : s'.heap.cell = s.heap.cell

/-- A call that returns at once changes nothing. -/
theorem Unchanged.refl (s : SemState) : Unchanged s s := ⟨rfl, rfl, rfl⟩

/-- `sem_open` of a named semaphore that exists fails before it writes. -/
theorem openExisting_failed {psem : Addr} {oflag : OFlag} {r : Ret Addr}
    (hs : openExisting s psem oflag = some (r, s')) (hr : r.val = SEM_FAILED) : s' = s := by
  unfold openExisting at hs
  split at hs
  · exact (Prod.mk.inj (Option.some.inj hs)).2.symm
  · -- the address of a semaphore is not `SEM_FAILED`
    obtain ⟨n, -, hs⟩ := Option.bind_eq_some_iff.mp hs
    obtain ⟨i, -, hs⟩ := Option.bind_eq_some_iff.mp hs
    obtain ⟨s₁, -, hs⟩ := Option.bind_eq_some_iff.mp hs
    obtain ⟨rfl, -⟩ := Prod.mk.inj (Option.some.inj hs)
    exact absurd hr (Nat.succ_ne_zero _)

/-- `sem_open` of a named semaphore that does not exist: what was allocated is freed. -/
theorem openMissing_failed {plast : Addr} {name : List UInt8} {oflag : OFlag} {value : Nat}
    {buf new : Addr} {r : Ret Addr}
    (hs : openMissing m s plast name oflag value buf new = some (r, s'))
    (hr : r.val = SEM_FAILED) : Unchanged s s' := by
  unfold openMissing at hs
  split at hs
  · obtain ⟨-, rfl⟩ := Prod.mk.inj (Option.some.inj hs)
    exact .refl s
  split at hs
  · -- no memory for the name
    obtain ⟨-, rfl⟩ := Prod.mk.inj (Option.some.inj hs)
    exact .refl s
  rename_i h₁ hm₁
  split at hs
  · -- no memory for the record
    obtain ⟨s₁, hfree, hs⟩ := Option.bind_eq_some_iff.mp hs
    obtain ⟨-, rfl⟩ := Prod.mk.inj (Option.some.inj hs)
    obtain ⟨s₂, hfree₂, hp, hl, hc, -⟩ := free_malloc hm₁
    obtain rfl := Option.some.inj (hfree.symm.trans hfree₂)
    exact ⟨hp, hl, hc⟩
  rename_i h₂ hm₂
  dsimp only at hs
  split at hs
  · -- `sem_init` failed
    obtain ⟨s₁, hfree₁, hs⟩ := Option.bind_eq_some_iff.mp hs
    obtain ⟨s₂, hfree₂, hs⟩ := Option.bind_eq_some_iff.mp hs
    obtain ⟨-, rfl⟩ := Prod.mk.inj (Option.some.inj hs)
    obtain ⟨s₃, s₄, hfree₃, hfree₄, hp, hl, hc, -⟩ := free_both hm₁ hm₂
    obtain rfl := Option.some.inj (hfree₁.symm.trans hfree₃)
    obtain rfl := Option.some.inj (hfree₂.symm.trans hfree₄)
    exact ⟨hp, hl, hc⟩
  · obtain ⟨s₁, -, hs⟩ := Option.bind_eq_some_iff.mp hs
    obtain ⟨s₂, -, hs⟩ := Option.bind_eq_some_iff.mp hs
    obtain ⟨s₃, -, hs⟩ := Option.bind_eq_some_iff.mp hs
    obtain ⟨rfl, -⟩ := Prod.mk.inj (Option.some.inj hs)
    exact absurd hr (Nat.succ_ne_zero _)

/-- `sem_close` of a semaphore on the list fails before it writes. -/
theorem closeExisting_failed {psem plast : Addr} {r : Ret Int}
    (hs : closeExisting s psem plast = some (r, s')) (hr : r.val = -1) : s' = s := by
  unfold closeExisting at hs
  obtain ⟨n, -, hs⟩ := Option.bind_eq_some_iff.mp hs
  obtain ⟨b, -, hs⟩ := Option.bind_eq_some_iff.mp hs
  split at hs
  · dsimp only at hs
    split at hs
    · exact (Prod.mk.inj (Option.some.inj hs)).2.symm
    · obtain ⟨s₁, -, hs⟩ := Option.bind_eq_some_iff.mp hs
      obtain ⟨rfl, -⟩ := Prod.mk.inj (Option.some.inj hs)
      exact absurd hr (by decide)
  split at hs
  · obtain ⟨s₁, -, hs⟩ := Option.bind_eq_some_iff.mp hs
    obtain ⟨rfl, -⟩ := Prod.mk.inj (Option.some.inj hs)
    exact absurd hr (by decide)
  · exact (Prod.mk.inj (Option.some.inj hs)).2.symm

/-- `sem_unlink` of a semaphore on the list fails before it writes. -/
theorem unlinkExisting_failed {psem plast : Addr} {r : Ret Int}
    (hs : unlinkExisting s psem plast = some (r, s')) (hr : r.val = -1) : s' = s := by
  unfold unlinkExisting at hs
  obtain ⟨n, -, hs⟩ := Option.bind_eq_some_iff.mp hs
  split at hs
  · dsimp only at hs
    split at hs
    · exact (Prod.mk.inj (Option.some.inj hs)).2.symm
    · obtain ⟨s₁, -, hs⟩ := Option.bind_eq_some_iff.mp hs
      obtain ⟨rfl, -⟩ := Prod.mk.inj (Option.some.inj hs)
      exact absurd hr (by decide)
  · obtain ⟨b, -, hs⟩ := Option.bind_eq_some_iff.mp hs
    obtain ⟨s₁, -, hs⟩ := Option.bind_eq_some_iff.mp hs
    obtain ⟨rfl, -⟩ := Prod.mk.inj (Option.some.inj hs)
    exact absurd hr (by decide)

/-- The lock changes nothing else, neither list nor blocks. -/
theorem unchanged_lock {s₁ : SemState} (hs : s.lock = some s₁) : Unchanged s s₁ := by
  unfold SemState.lock at hs
  split at hs
  · cases hs
  · obtain rfl := Option.some.inj hs
    exact ⟨rfl, rfl, rfl⟩

/-- What is unchanged between the lock and its release is unchanged by the call. -/
theorem Unchanged.locked {s₁ s₂ : SemState} (h : Unchanged s₁ s₂) (hlock : s.lock = some s₁) :
    Unchanged s s₂.unlock := by
  have h₁ := unchanged_lock hlock
  exact ⟨h.psemList.trans h₁.psemList, h.live.trans h₁.live, h.cell.trans h₁.cell⟩

/-- **`sem_open`.**  A call that fails has changed nothing, also after its allocations. -/
theorem semOpen_failed {name : List UInt8} {oflag : OFlag} {value : Nat} {buf new : Addr}
    {r : Ret Addr} (hs : semOpen m s name oflag value buf new = some (r, s'))
    (hr : r.val = SEM_FAILED) : Unchanged s s' := by
  unfold semOpen at hs
  split at hs
  · obtain ⟨-, rfl⟩ := Prod.mk.inj (Option.some.inj hs)
    exact .refl s
  obtain ⟨s₁, hlock, hs⟩ := Option.bind_eq_some_iff.mp hs
  obtain ⟨⟨psem, plast⟩, -, hs⟩ := Option.bind_eq_some_iff.mp hs
  dsimp only at hs
  split at hs
  · obtain ⟨⟨r₂, s₂⟩, hcall, hs⟩ := Option.bind_eq_some_iff.mp hs
    obtain ⟨rfl, rfl⟩ := Prod.mk.inj (Option.some.inj hs)
    rw [openExisting_failed hcall hr]
    exact (Unchanged.refl s₁).locked hlock
  · obtain ⟨⟨r₂, s₂⟩, hcall, hs⟩ := Option.bind_eq_some_iff.mp hs
    obtain ⟨rfl, rfl⟩ := Prod.mk.inj (Option.some.inj hs)
    exact (openMissing_failed hcall hr).locked hlock

/-- **`sem_close`.**  A call that fails has changed nothing. -/
theorem semClose_failed {sem : Addr} {r : Ret Int} (hs : semClose s sem = some (r, s'))
    (hr : r.val = -1) : Unchanged s s' := by
  unfold semClose at hs
  obtain ⟨s₁, hlock, hs⟩ := Option.bind_eq_some_iff.mp hs
  obtain ⟨⟨psem, plast⟩, -, hs⟩ := Option.bind_eq_some_iff.mp hs
  dsimp only at hs
  split at hs
  · obtain ⟨-, rfl⟩ := Prod.mk.inj (Option.some.inj hs)
    exact (Unchanged.refl s₁).locked hlock
  · obtain ⟨⟨r₂, s₂⟩, hcall, hs⟩ := Option.bind_eq_some_iff.mp hs
    obtain ⟨rfl, rfl⟩ := Prod.mk.inj (Option.some.inj hs)
    rw [closeExisting_failed hcall hr]
    exact (Unchanged.refl s₁).locked hlock

/-- **`sem_unlink`.**  A call that fails has changed nothing. -/
theorem semUnlink_failed {name : List UInt8} {r : Ret Int}
    (hs : semUnlink s name = some (r, s')) (hr : r.val = -1) : Unchanged s s' := by
  unfold semUnlink at hs
  split at hs
  · obtain ⟨-, rfl⟩ := Prod.mk.inj (Option.some.inj hs)
    exact .refl s
  obtain ⟨s₁, hlock, hs⟩ := Option.bind_eq_some_iff.mp hs
  obtain ⟨⟨psem, plast⟩, -, hs⟩ := Option.bind_eq_some_iff.mp hs
  dsimp only at hs
  split at hs
  · obtain ⟨-, rfl⟩ := Prod.mk.inj (Option.some.inj hs)
    exact (Unchanged.refl s₁).locked hlock
  · obtain ⟨⟨r₂, s₂⟩, hcall, hs⟩ := Option.bind_eq_some_iff.mp hs
    obtain ⟨rfl, rfl⟩ := Prod.mk.inj (Option.some.inj hs)
    rw [unlinkExisting_failed hcall hr]
    exact (Unchanged.refl s₁).locked hlock

/-- A step that fails leaves the memory alone, whichever call it is. -/
theorem semCall_failed {c : SemCall} {r : SemRet} (hs : semCall m s c = some (r, s'))
    (hr : r.failure ≠ none) : Unchanged s s' := by
  cases c with
  | semOpen =>
    obtain ⟨⟨r₁, s₁⟩, hcall, hs⟩ := Option.map_eq_some_iff.mp hs
    obtain ⟨rfl, rfl⟩ := Prod.mk.inj hs
    exact semOpen_failed hcall (by simpa [SemRet.failure] using hr)
  | semClose =>
    obtain ⟨⟨r₁, s₁⟩, hcall, hs⟩ := Option.map_eq_some_iff.mp hs
    obtain ⟨rfl, rfl⟩ := Prod.mk.inj hs
    exact semClose_failed hcall (by simpa [SemRet.failure] using hr)
  | semUnlink =>
    obtain ⟨⟨r₁, s₁⟩, hcall, hs⟩ := Option.map_eq_some_iff.mp hs
    obtain ⟨rfl, rfl⟩ := Prod.mk.inj hs
    exact semUnlink_failed hcall (by simpa [SemRet.failure] using hr)
  | kernel =>
    -- the kernel returns nothing, so it does not fail
    obtain ⟨⟨psem, plast⟩, -, hs⟩ := Option.bind_eq_some_iff.mp hs
    dsimp only at hs
    split at hs
    · obtain ⟨rfl, -⟩ := Prod.mk.inj (Option.some.inj hs)
      exact absurd rfl hr
    · obtain ⟨n, -, hs⟩ := Option.bind_eq_some_iff.mp hs
      obtain ⟨s₁, -, hs⟩ := Option.bind_eq_some_iff.mp hs
      obtain ⟨rfl, -⟩ := Prod.mk.inj (Option.some.inj hs)
      exact absurd rfl hr

/-- A step with a reason to be refused does not overflow a count. -/
theorem Overflows.refusal {c : SemCall} (h : Overflows l c) : refusal m l c = none := by
  cases c with
  | semOpen name oflag value buf new =>
    obtain ⟨hname, hflag, x, hx, hxn, -⟩ := h
    rw [Posix.refusal, if_neg hname]
    cases hfind : l.find? (fun x => x.2.name = cstr name) with
    | none => exact absurd hxn (by simpa using List.find?_eq_none.mp hfind x hx)
    | some y => simp [hflag]
  | _ => exact h.elim

/-- **Failing calls.**  In every reached state a call that there is a reason to refuse returns
    its failure value with that reason in `errno`, no other call does, and one that does leaves
    the list, every name, count and semaphore, and the live blocks as they were.  After every
    call the lock is free. -/
theorem failed_calls {as : List (SemCall × SemRet)} (h : (semSystem m).Run as s) :
    ∃ l, Rep s l ∧ ∀ c,
      (refusal m l c ≠ none → ∃ r s', semCall m s c = some (r, s')) ∧
      ∀ r s', semCall m s c = some (r, s') →
        r.failure = (refusal m l c).map some ∧ (r.failure ≠ none → Unchanged s s') ∧
          s'.nameMutex = false := by
  obtain ⟨l, hl⟩ := run_inv h
  refine ⟨l, hl.rep, fun c => ⟨fun hrefused => ?_, fun r s' hs => ?_⟩⟩
  · rcases semCall_outcome (m := m) hl.rep hl.unlocked c with
      ⟨-, hover⟩ | ⟨r, s', -, -, hs, -⟩
    · exact absurd hover.refusal hrefused
    · exact ⟨r, s', hs⟩
  · obtain ⟨fs, l', hstep, -, hgood⟩ := hl.step hs
    exact ⟨hstep.failure hl.rep hl.inv, semCall_failed hs, hgood.unlocked⟩

/-- A value above `SEM_VALUE_MAX`, refused after both allocations. -/
theorem failed_calls_value :
    ∃ rs s s', LTS.exec (semCall 5) [.semOpen [97] ⟨true, false⟩ 1 8 16] .empty = some (rs, s) ∧
      semCall 5 s (.semOpen [98] ⟨true, false⟩ 9 24 32)
        = some (.ptr ⟨SEM_FAILED, some .EINVAL⟩, s') ∧
      Unchanged s s' ∧ s'.nameMutex = false := by
  have hsome : ((LTS.exec (semCall 5) [.semOpen [97] ⟨true, false⟩ 1 8 16] .empty).bind fun x =>
      (semCall 5 x.2 (.semOpen [98] ⟨true, false⟩ 9 24 32)).map Prod.fst)
      = some (.ptr ⟨SEM_FAILED, some .EINVAL⟩) := by decide +kernel
  obtain ⟨⟨rs, s⟩, hrun, hsome⟩ := Option.bind_eq_some_iff.mp hsome
  obtain ⟨⟨r, s'⟩, hcall, rfl⟩ := Option.map_eq_some_iff.mp hsome
  obtain ⟨l, -, hcalls⟩ := failed_calls (LTS.Run.exec (.init rfl) hrun)
  obtain ⟨-, hunchanged, hmutex⟩ := (hcalls _).2 _ _ hcall
  exact ⟨rs, s, s', hrun, hcall, hunchanged nofun, hmutex⟩

end Ecos.Posix
