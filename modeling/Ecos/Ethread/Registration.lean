import Ecos.Ethread.Ownership

namespace Ecos.Ethread

open Ecos.Lib

/-!
# Failing calls of `ethread_setspecific`

`ethread_setspecific` searches a slot, registers `ethread_exit` with the kernel, allocates the
table and publishes it, in this order, and each but the last can fail.

* `MallocFails` — the failure that comes after `ethread_exit` was registered;
* `setspecific_fails` — what the failing calls leave behind;
* `registered_run` — an account of the registrations over every run;
* `setspecific_atomic` — a failing call changes nothing, unless it is `malloc` that failed.
-/

variable {cfg : EthreadConfig} {s s' : TsdState} {t u : Thread} {e : TsdEvent} {out : TsdOut}
  {as : List ((Thread × TsdEvent) × TsdOut)} {k : Nat} {p : Ptr} {added : Bool} {answer : Addr}

/-- The call finds the key allocated, no table of the thread, and a free slot for one;
    `cyg_thread_add_destructor` accepts `ethread_exit`; and `malloc` returns `NULL`. -/
def MallocFails (cfg : EthreadConfig) (s : TsdState) (t : Thread) (key : Nat) (added : Bool)
    (answer : Addr) : Prop :=
  s.keyFree cfg key = false ∧ s.threadTable (s.threadData t) = 0 ∧
    (∃ i ∈ TsdState.slots cfg, s.threadTable i = 0) ∧ added = true ∧
    s.heap.malloc answer cfg.garbage = none

/-- The state with one more registration of `ethread_exit` for thread `t`, as
    `cyg_thread_add_destructor` leaves it. -/
def TsdState.register (s : TsdState) (t : Thread) : TsdState :=
  { s with registered := Function.update s.registered t (s.registered t + 1) }

/-! ### The exits -/

/-- The exits of the part of `ethread_setspecific` that gives the thread a table; only the one
    without memory leaves a registration behind. -/
theorem newTable_exits {x : Except EthreadError Addr}
    (hs : newTable cfg s t added answer = some (x, s')) :
    (x = .error .EINVAL ∧ s' = s ∧
      ¬((∃ i ∈ TsdState.slots cfg, s.threadTable i = 0) ∧ added = true)) ∨
    (x = .error .ENOMEM ∧ s' = s.register t ∧ s.heap.malloc answer cfg.garbage = none ∧
      (∃ i ∈ TsdState.slots cfg, s.threadTable i = 0) ∧ added = true) ∨
    (x = .ok answer ∧ s'.registered = (s.register t).registered ∧
      s'.allocated = s.allocated ++ [(answer, t)] ∧ s.heap.malloc answer cfg.garbage ≠ none) := by
  unfold newTable at hs
  split at hs
  · -- no slot is free
    rename_i hfind
    obtain ⟨rfl, rfl⟩ := Prod.mk.inj (Option.some.inj hs)
    refine Or.inl ⟨rfl, rfl, ?_⟩
    rintro ⟨⟨i, hi, hslot⟩, -⟩
    have hused := List.find?_eq_none.mp hfind i hi
    simp [hslot] at hused
  rename_i i hfind
  have hslot : ∃ i ∈ TsdState.slots cfg, s.threadTable i = 0 :=
    ⟨i, List.mem_of_find?_eq_some hfind, by simpa using List.find?_some hfind⟩
  split at hs
  · -- the kernel refuses the destructor
    rename_i hadded
    obtain ⟨rfl, rfl⟩ := Prod.mk.inj (Option.some.inj hs)
    refine Or.inl ⟨rfl, rfl, ?_⟩
    rintro ⟨-, rfl⟩
    simp at hadded
  rename_i hadded
  have hadded' : added = true := by simpa using hadded
  dsimp only at hs
  split at hs
  · -- out of memory, and registered
    rename_i hmalloc
    obtain ⟨rfl, rfl⟩ := Prod.mk.inj (Option.some.inj hs)
    exact Or.inr (Or.inl ⟨rfl, rfl, hmalloc, hslot, hadded'⟩)
  · rename_i h₁ hmalloc
    obtain ⟨h', hstore, hs⟩ := Option.bind_eq_some_iff.mp hs
    obtain ⟨rfl, rfl⟩ := Prod.mk.inj (Option.some.inj hs)
    have hmalloc' : s.heap.malloc answer cfg.garbage = some h₁ := hmalloc
    exact Or.inr (Or.inr ⟨rfl, rfl, rfl, by rw [hmalloc']; simp⟩)

/-- The exits of `ethread_setspecific`, as far as registrations are concerned: all but `ENOMEM`
    leave the state or the account as it was. -/
theorem setspecific_exits (hs : setspecific cfg s t k p added answer = some (out, s')) :
    ((∃ err, out.ret = .int (some err) ∧ err ≠ .ENOMEM) ∧ s' = s ∧
      (s.keyFree cfg k = true ∨
        ¬((∃ i ∈ TsdState.slots cfg, s.threadTable i = 0) ∧ added = true))) ∨
    (out.ret = .int (some .ENOMEM) ∧ s' = s.register t ∧ MallocFails cfg s t k added answer) ∨
    (out.ret = .int none ∧ ¬MallocFails cfg s t k added answer ∧
      ((s'.registered = s.registered ∧ s'.allocated = s.allocated) ∨
        (s'.registered = (s.register t).registered ∧
          s'.allocated = s.allocated ++ [(answer, t)]))) := by
  unfold setspecific at hs
  split at hs
  · rename_i hfree
    obtain ⟨rfl, rfl⟩ := Prod.mk.inj (Option.some.inj hs)
    exact Or.inl ⟨⟨.EINVAL, rfl, by decide⟩, rfl, Or.inl hfree⟩
  -- the key is allocated; is there a table?
  rename_i hfree
  replace hfree : s.keyFree cfg k = false := by simpa using hfree
  obtain ⟨⟨x, s₁⟩, hlocal, hrest⟩ := Option.bind_eq_some_iff.mp hs
  obtain ⟨i, hi, htable⟩ := Option.bind_eq_some_iff.mp hlocal
  obtain rfl := getData_eq hi
  dsimp only at htable
  split at htable
  · rename_i htab
    rcases newTable_exits htable with
      ⟨rfl, rfl, hno⟩ | ⟨rfl, rfl, hmalloc, hslot, hadded⟩ | ⟨rfl, hreg, halloc, hmalloc⟩
    · obtain ⟨rfl, rfl⟩ := Prod.mk.inj (Option.some.inj hrest)
      exact Or.inl ⟨⟨.EINVAL, rfl, by decide⟩, rfl, Or.inr hno⟩
    · obtain ⟨rfl, rfl⟩ := Prod.mk.inj (Option.some.inj hrest)
      exact Or.inr (Or.inl ⟨rfl, rfl, hfree, htab, hslot, hadded, hmalloc⟩)
    · obtain ⟨s₂, hstore, hlast⟩ := Option.bind_eq_some_iff.mp hrest
      obtain ⟨rfl, rfl⟩ := Prod.mk.inj (Option.some.inj hlast)
      obtain ⟨h', d, rfl, -⟩ := storeEntry_spec hstore
      exact Or.inr (Or.inr ⟨rfl, fun hfail => hmalloc hfail.2.2.2.2, Or.inr ⟨hreg, halloc⟩⟩)
  -- the table that is there is used
  · rename_i htab
    obtain ⟨rfl, rfl⟩ := Prod.mk.inj (Option.some.inj htable)
    obtain ⟨s₂, hstore, hlast⟩ := Option.bind_eq_some_iff.mp hrest
    obtain ⟨rfl, rfl⟩ := Prod.mk.inj (Option.some.inj hlast)
    obtain ⟨h', d, rfl, -⟩ := storeEntry_spec hstore
    exact Or.inr (Or.inr ⟨rfl, fun hfail => htab hfail.2.1, Or.inl ⟨rfl, rfl⟩⟩)

/-- **A failing call.**  It changes nothing; or `malloc` failed, and `ethread_exit` is
    registered once more. -/
theorem setspecific_fails {err : EthreadError} {touched : List (Addr × Thread)}
    (hs : setspecific cfg s t k p added answer = some (⟨.int (some err), touched⟩, s')) :
    s' = s ↔ ¬MallocFails cfg s t k added answer := by
  rcases setspecific_exits hs with ⟨-, rfl, hno⟩ | ⟨-, rfl, hfail⟩ | ⟨hret, -⟩
  · have hok : ¬MallocFails cfg s' t k added answer := by
      rintro ⟨hfree, -, hslot, hadded, -⟩
      rcases hno with hfree' | hno
      · rw [hfree] at hfree'
        cases hfree'
      · exact hno ⟨hslot, hadded⟩
    simp [hok]
  · -- one registration more is another state
    have hne : s.register t ≠ s := by
      intro heq
      have hreg := congrFun (congrArg TsdState.registered heq) t
      simp [TsdState.register] at hreg
    simp [hne, hfail]
  · cases hret

/-! ### The account of registrations -/

/-- `ethread_exit` was called for thread `t`. -/
def exitOf (t : Thread) (b : (Thread × TsdEvent) × TsdOut) : Bool := b.1 = (t, .exitStart)

/-- A `setspecific` call of thread `t` ran out of memory, which is where a registration is left
    over. -/
def outOfMemory (t : Thread) (b : (Thread × TsdEvent) × TsdOut) : Bool :=
  b.1.1 = t ∧ b.2.ret = .int (some .ENOMEM)

/-- The tables allocated for thread `t` so far, whether or not they have been freed since. -/
def TsdState.tablesOf (s : TsdState) (t : Thread) : Nat := s.allocated.countP fun x => x.2 = t

/-- What one step does to the registrations of a thread: a table adds one, an `ENOMEM` adds one too
    many, and each `ethread_exit` uses one up. -/
theorem stepTsd_registered (hs : stepTsd cfg s (t, e) = some (out, s')) (u : Thread) :
    s'.registered u + [((t, e), out)].countP (exitOf u) + s.tablesOf u
      = s.registered u + s'.tablesOf u + [((t, e), out)].countP (outOfMemory u) := by
  have hsame : s'.registered = s.registered → s'.allocated = s.allocated →
      exitOf u ((t, e), out) = false → outOfMemory u ((t, e), out) = false →
      s'.registered u + [((t, e), out)].countP (exitOf u) + s.tablesOf u
        = s.registered u + s'.tablesOf u + [((t, e), out)].countP (outOfMemory u) := by
    intro hreg halloc hexit hmem
    simp [TsdState.tablesOf, hreg, halloc, hexit, hmem]
  cases e with
  | keyCreate d n =>
    unfold stepTsd at hs
    dsimp only at hs
    split at hs
    · obtain ⟨s₁, hs₁, hs⟩ := Option.bind_eq_some_iff.mp hs
      obtain ⟨i, -, rfl⟩ := initKeys_spec hs₁
      cases halloc : (s.keyMap cfg).alloc with
      | none =>
        simp only [halloc] at hs
        obtain ⟨rfl, rfl⟩ := Prod.mk.inj (Option.some.inj hs)
        exact hsame rfl rfl (by simp [exitOf]) (by simp [outOfMemory])
      | some km =>
        simp only [halloc] at hs
        obtain ⟨h', -, hs⟩ := Option.bind_eq_some_iff.mp hs
        obtain ⟨rfl, rfl⟩ := Prod.mk.inj (Option.some.inj hs)
        exact hsame rfl rfl (by simp [exitOf]) (by simp [outOfMemory])
    · cases hs
  | setspecific k p added answer =>
    unfold stepTsd at hs
    dsimp only at hs
    split at hs
    · -- only the call that finds no table registers the exit: it fails, or it leaves a table
      have hexit : exitOf u ((t, .setspecific k p added answer), out) = false := by simp [exitOf]
      rcases setspecific_exits hs with
        ⟨⟨err, hret, herr⟩, rfl, -⟩ | ⟨hret, rfl, -⟩ | ⟨hret, -, ⟨hreg, halloc⟩ | ⟨hreg, halloc⟩⟩
      · exact hsame rfl rfl hexit (by simp [outOfMemory, hret, herr])
      · by_cases hut : u = t
        · subst hut
          simp [TsdState.register, TsdState.tablesOf, hexit, outOfMemory, hret]
          omega
        · simp [TsdState.register, TsdState.tablesOf, hexit, outOfMemory, hut, Ne.symm hut]
      · exact hsame hreg halloc hexit (by simp [outOfMemory, hret])
      · by_cases hut : u = t
        · subst hut
          simp [TsdState.register, TsdState.tablesOf, hexit, outOfMemory, hret, hreg, halloc]
          omega
        · simp [TsdState.register, TsdState.tablesOf, hexit, outOfMemory, hut, Ne.symm hut, hreg,
            halloc]
    · cases hs
  | exitStart =>
    unfold stepTsd exitStart at hs
    dsimp only at hs
    split at hs
    swap
    · cases hs
    split at hs
    · cases hs
    rename_i hreg
    obtain ⟨i, -, hs⟩ := Option.bind_eq_some_iff.mp hs
    -- with or without a table, the exit uses up one registration
    have hone : s'.registered = Function.update s.registered t (s.registered t - 1) ∧
        s'.allocated = s.allocated ∧ out.ret = .none := by
      split at hs
      · obtain ⟨rfl, rfl⟩ := Prod.mk.inj (Option.some.inj hs)
        exact ⟨rfl, rfl, rfl⟩
      · obtain ⟨rfl, rfl⟩ := Prod.mk.inj (Option.some.inj hs)
        exact ⟨rfl, rfl, rfl⟩
    obtain ⟨hreg', halloc, hret⟩ := hone
    by_cases hut : u = t
    · subst hut
      simp [TsdState.tablesOf, exitOf, outOfMemory, hret, hreg', halloc]
      omega
    · simp [TsdState.tablesOf, exitOf, outOfMemory, hut, Ne.symm hut, hreg', halloc]
  -- no other step touches the registrations or allocates a table
  | exitNext =>
    cases stepTsd_cases_of_ne rfl hs with
    | move he hpc hpc' hindex hdata htouched =>
      exact hsame rfl rfl (by simp [exitOf]) (by simp [outOfMemory])
    | runDestructor hpc hlive hd hcell =>
      exact hsame rfl rfl (by simp [exitOf]) (by simp [outOfMemory])
    | releaseNone hpc htab => exact hsame rfl rfl (by simp [exitOf]) (by simp [outOfMemory])
    | release hpc htab hlive hcell =>
      exact hsame rfl rfl (by simp [exitOf]) (by simp [outOfMemory])
  | destructorReturn =>
    cases stepTsd_cases_of_ne rfl hs with
    | move he hpc hpc' hindex hdata htouched =>
      exact hsame rfl rfl (by simp [exitOf]) (by simp [outOfMemory])
  | keyDelete k =>
    cases stepTsd_cases_of_ne rfl hs with
    | keyDelete hk => exact hsame rfl rfl (by simp [exitOf]) (by simp [outOfMemory])
    | move he => rcases he with he | he <;> cases he
  | getspecific k =>
    cases stepTsd_cases_of_ne rfl hs with
    | getFree hfree => exact hsame rfl rfl (by simp [exitOf]) (by simp [outOfMemory])
    | getNone hfree htab => exact hsame rfl rfl (by simp [exitOf]) (by simp [outOfMemory])
    | getOwn hfree htab hd => exact hsame rfl rfl (by simp [exitOf]) (by simp [outOfMemory])
    | move he => rcases he with he | he <;> cases he

/-- **Run lemma.**  Each table a thread was given and each call of it that ran out of memory
    registered `ethread_exit` once, and each `ethread_exit` used up one registration. -/
theorem registered_run (h : (tsdSystem cfg).Run as s) (t : Thread) :
    s.registered t + as.countP (exitOf t) = s.tablesOf t + as.countP (outOfMemory t) := by
  refine h.invariant_trace (I := fun as s =>
    s.registered t + as.countP (exitOf t) = s.tablesOf t + as.countP (outOfMemory t)) ?_ ?_
  · rintro s rfl
    rfl
  · rintro as s ⟨⟨u, e⟩, out⟩ s' - ih hs
    have hstep : s'.registered t + [((u, e), out)].countP (exitOf t) + s.tablesOf t
        = s.registered t + s'.tablesOf t + [((u, e), out)].countP (outOfMemory t) :=
      stepTsd_registered hs t
    rw [List.countP_append, List.countP_append]
    have hold : s.registered t + as.countP (exitOf t)
        = s.tablesOf t + as.countP (outOfMemory t) := ih
    omega

/-- **Failing calls.**  In every reachable state a failing `setspecific` call leaves the state
    as it was exactly when it is not `malloc` that fails; and a thread whose calls never ran
    out of memory has `ethread_exit` registered at most once for each table it was given. -/
theorem setspecific_atomic (h : (tsdSystem cfg).Run as s) :
    (∀ t k p added answer err touched s', stepTsd cfg s (t, .setspecific k p added answer)
        = some (⟨.int (some err), touched⟩, s') →
      (s' = s ↔ ¬MallocFails cfg s t k added answer)) ∧
    ∀ t, (∀ b ∈ as, outOfMemory t b = false) → s.registered t ≤ s.tablesOf t := by
  refine ⟨fun t k p added answer err touched s' hs => ?_, fun t hnone => ?_⟩
  · unfold stepTsd at hs
    dsimp only at hs
    split at hs
    · exact setspecific_fails hs
    · cases hs
  · have hledger := registered_run h t
    have hzero : as.countP (outOfMemory t) = 0 := by
      rw [List.countP_eq_zero]
      intro b hb
      simp [hnone b hb]
    omega

/-- Thread 1 creates a key, and thread 2 is given a table; from here a second thread can fail. -/
def firstTable : List (Thread × TsdEvent) := [(1, .keyCreate 0 0), (2, .setspecific 0 7 true 8)]

theorem setspecific_atomic_refused :
    ∃ os s, LTS.exec (stepTsd defaultConfig) firstTable (.init defaultConfig) = some (os, s) ∧
      (∀ s', stepTsd defaultConfig s (1, .setspecific 0 5 false 16)
        = some (⟨.int (some .EINVAL), []⟩, s') → s' = s) ∧
      s.registered 2 ≤ s.tablesOf 2 := by
  have hout : (LTS.exec (stepTsd defaultConfig) firstTable (.init defaultConfig)).map
      (fun x => (firstTable.zip x.1).any (outOfMemory 2)) = some false := by decide +kernel
  obtain ⟨⟨os, s⟩, hex, hmem⟩ := Option.map_eq_some_iff.mp hout
  obtain ⟨hfail, hreg⟩ := setspecific_atomic (LTS.Run.exec (.init rfl) hex)
  refine ⟨os, s, hex, fun s' hs => (hfail 1 0 5 false 16 _ _ s' hs).mpr ?_, hreg 2 ?_⟩
  · rintro ⟨-, -, -, hadded, -⟩
    cases hadded
  · intro b hb
    simpa using List.any_eq_false.mp hmem b hb

/-- `ethread_exit` was registered before `malloc` failed: the call answers `ENOMEM` and has changed
    the state. -/
theorem registered_without_table :
    ¬∀ as s, (tsdSystem defaultConfig).Run as s →
      (∀ t k p added answer err touched s', stepTsd defaultConfig s
        (t, .setspecific k p added answer) = some (⟨.int (some err), touched⟩, s') → s' = s) ∧
      ∀ t, s.registered t ≤ s.tablesOf t := by
  intro hall
  have hout : (LTS.exec (stepTsd defaultConfig) [(1, .keyCreate 0 0), (1, .setspecific 0 5 true 0)]
      (.init defaultConfig)).map (fun x => (x.2.registered 1, x.2.tablesOf 1)) = some (1, 0) := by
    decide +kernel
  obtain ⟨⟨os, s⟩, hex, hcount⟩ := Option.map_eq_some_iff.mp hout
  have hreg : s.registered 1 = 1 := congrArg Prod.fst hcount
  have htab : s.tablesOf 1 = 0 := congrArg Prod.snd hcount
  have hle := (hall _ s (LTS.Run.exec (.init rfl) hex)).2 1
  omega

end Ecos.Ethread
