import Ecos.Posix.RegistryInvariant

namespace Ecos.Posix

open Ecos.Lib

/-!
# Named semaphores by name

The registry of `sem.cxx` for a user that opens semaphores by name, tries and posts them.

* `SemState.trywait`, `SemState.post` — the calls on a semaphore that was opened;
* `TableOf s t` — in `s` the semaphore that can be found under a name is the one that the table
  `t` gives for it;
* `TableOf.semOpen`, `TableOf.trywait`, `TableOf.post` — the calls as changes of the table.
-/

/-! ### Calls on an open semaphore -/

/-- A call on the counting semaphore behind a `sem_t *`, which must be one of the module's. -/
def SemState.withSem (s : SemState) (sem : Addr)
    (f : CountingSemaphore → Ret Int × CountingSemaphore) : Option (Ret Int × SemState) := do
  let n ← s.node (sem - semOffset)
  let s ← s.setNode (sem - semOffset) { n with sem := (f n.sem).2 }
  return ((f n.sem).1, s)

/-- `sem_trywait(sem)` -/
def SemState.trywait (s : SemState) (sem : Addr) : Option (Ret Int × SemState) :=
  s.withSem sem semTrywait

/-- `sem_post(sem)` -/
def SemState.post (s : SemState) (sem : Addr) : Option (Ret Int × SemState) :=
  s.withSem sem semPost

/-- The record of the semaphore that can be found under a name, by the module's own search. -/
def SemState.semOf (s : SemState) (name : List UInt8) : Option SemName := do
  s.node (← s.searchName name).1

/-- The count of the semaphore that can be found under a name, 0 if there is none. -/
def SemState.count (s : SemState) (name : List UInt8) : Nat :=
  ((s.semOf name).map fun n => n.sem.count).getD 0

/-- The `open_count` of the semaphore that can be found under a name, 0 if there is none. -/
def SemState.openCount (s : SemState) (name : List UInt8) : Int :=
  ((s.semOf name).map SemName.openCount).getD 0

/-! ### The table -/

/-- A semaphore that can be found under its name: what the users of the module need to know of
    it. -/
structure NamedSem where
  addr : Addr
  count : Nat
  openCount : Int
  deriving DecidableEq, Repr

/-- The semaphore that a list has under a name; an unlinked one has the empty name. -/
def Registry.table (l : Registry) (name : List UInt8) : Option NamedSem :=
  if name = [] then none
  else (l.find? fun x => x.2.name = name).map fun x => ⟨x.1, x.2.sem.count, x.2.openCount⟩

/-- The table of the semaphores in a state: which names lead to a semaphore, with its counts. -/
def TableOf (s : SemState) (t : List UInt8 → Option NamedSem) : Prop :=
  ∃ l, Rep s l ∧ s.nameMutex = false ∧ (linkedNames l).Nodup ∧ Registry.table l = t

variable {l l₁ l₂ : Registry} {a : Addr} {v : RegNode} {s s' : SemState}
  {t : List UInt8 → Option NamedSem} {name : List UInt8} {x : NamedSem} {m : Nat}

/-- A name that a node has is the name of no other node, so that the table has one entry for it. -/
theorem ne_name_of_nodup (hn : (linkedNames (l₁ ++ (a, v) :: l₂)).Nodup) (hv : v.name ≠ []) :
    ∀ y ∈ l₁ ++ l₂, y.2.name ≠ v.name := by
  have hperm : (linkedNames (l₁ ++ (a, v) :: l₂)).Perm (v.name :: linkedNames (l₁ ++ l₂)) := by
    have hfilter : linkedNames (l₁ ++ l₂) = linkedNames l₁ ++ linkedNames l₂ := by
      simp [linkedNames]
    rw [linkedNames_middle, hfilter]
    simp only [ne_eq, hv, not_false_eq_true, decide_true, List.filter_cons_of_pos,
      List.filter_nil]
    exact List.perm_middle
  intro y hy hname
  apply (List.nodup_cons.mp (hperm.nodup_iff.mp hn)).1
  exact mem_linkedNames.mpr ⟨hv, y, hy, hname⟩

/-- The table of a list with one node singled out: that of the others, with its entry added. -/
theorem table_middle (hn : (linkedNames (l₁ ++ (a, v) :: l₂)).Nodup) (hv : v.name ≠ []) :
    Registry.table (l₁ ++ (a, v) :: l₂)
      = Function.update (Registry.table (l₁ ++ l₂)) v.name
          (some ⟨a, v.sem.count, v.openCount⟩) := by
  ext1 n
  have hne := ne_name_of_nodup hn hv
  unfold Registry.table
  by_cases hname : n = v.name
  · -- no node in front has the name
    subst hname
    have hfront : l₁.find? (fun y => decide (y.2.name = v.name)) = none := by
      rw [List.find?_eq_none]
      intro y hy
      simpa using hne y (List.mem_append_left _ hy)
    rw [Function.update_self, if_neg hv, List.find?_append, hfront]
    simp
  · rw [Function.update_of_ne hname, List.find?_append, List.find?_append, List.find?_cons]
    simp [Ne.symm hname]

/-- Rewriting a node that keeps its name does not change the names. -/
theorem linkedNames_set {w : RegNode} (hw : w.name = v.name) :
    linkedNames (l₁ ++ (a, w) :: l₂) = linkedNames (l₁ ++ (a, v) :: l₂) := by
  rw [linkedNames_middle, linkedNames_middle, hw]

/-- A change of the semaphore, or of the count, of a node changes one entry of the table. -/
theorem table_set {w : RegNode} (hn : (linkedNames (l₁ ++ (a, v) :: l₂)).Nodup)
    (hv : v.name ≠ []) (hw : w.name = v.name) :
    Registry.table (l₁ ++ (a, w) :: l₂)
      = Function.update (Registry.table (l₁ ++ (a, v) :: l₂)) v.name
          (some ⟨a, w.sem.count, w.openCount⟩) := by
  rw [table_middle hn hv, Function.update_idem, ← hw]
  apply table_middle
  · rw [linkedNames_set hw]
    exact hn
  · rw [hw]
    exact hv

/-- The node behind an entry of the table, and where it stands on the list. -/
theorem table_eq_some (h : Registry.table l name = some x) : ∃ l₁ l₂ v,
    l = l₁ ++ (x.addr, v) :: l₂ ∧ v.name = name ∧ name ≠ [] ∧ v.sem.count = x.count ∧
      v.openCount = x.openCount := by
  unfold Registry.table at h
  split at h
  · cases h
  rename_i hne
  obtain ⟨⟨a, v⟩, hfind, rfl⟩ := Option.map_eq_some_iff.mp h
  obtain ⟨hname, l₁, l₂, rfl, -⟩ := List.find?_eq_some_iff_append.mp hfind
  exact ⟨l₁, l₂, v, rfl, by simpa using hname, hne, rfl, rfl⟩

/-- A name that no node has is not in the table. -/
theorem table_eq_none (hmiss : ∀ y ∈ l, y.2.name ≠ name) : Registry.table l name = none := by
  unfold Registry.table
  split
  · rfl
  · rw [List.find?_eq_none.mpr fun y hy => by simpa using hmiss y hy]
    rfl

/-- In every state that the module reaches, semaphores are found by a table, so that its users need
    not know the list. -/
theorem tableOf_of_reachable (h : (semSystem m).Reachable s) : ∃ t, TableOf s t := by
  obtain ⟨as, h⟩ := h
  obtain ⟨l, hl⟩ := run_inv h
  exact ⟨_, l, hl.rep, hl.unlocked, hl.inv.names, rfl⟩

/-- The counts of the table are the ones that the memory holds under the same name. -/
theorem TableOf.semOf_eq (h : TableOf s t) (hname : cstr name ≠ []) :
    (s.semOf name).map (fun n => (n.sem.count, n.openCount))
      = (t (cstr name)).map fun x => (x.count, x.openCount) := by
  obtain ⟨l, hrep, -, hnodup, rfl⟩ := h
  unfold SemState.semOf
  rcases hrep.searchName name with ⟨l₁, a, v, l₂, rfl, hv, hs⟩ | ⟨hmiss, hs⟩
  · obtain ⟨q, b, -, hcell, -, -⟩ := hrep.cells
    have hne : v.name ≠ [] := by
      rw [hv]
      exact hname
    rw [hs, table_middle hnodup hne, ← hv, Function.update_self]
    simp [node_eq_some.mpr hcell]
  · rw [hs, table_eq_none hmiss]
    -- the search ends with `NULL`
    have hnull : s.node 0 = none := by
      cases hnode : s.node 0 with
      | none => rfl
      | some n =>
        exact absurd (Heap.mem_live_of_cell (node_eq_some.mp hnode)) s.heap.null_not_live
    show (s.node 0).map _ = none
    rw [hnull]
    rfl

/-- The count of a semaphore, by its name, is that of the table. -/
theorem TableOf.count_eq (h : TableOf s t) (hname : cstr name ≠ []) :
    s.count name = ((t (cstr name)).map NamedSem.count).getD 0 := by
  have heq := congrArg (Option.map Prod.fst) (h.semOf_eq hname)
  rw [Option.map_map, Option.map_map] at heq
  unfold SemState.count
  exact congrArg (Option.getD · 0) heq

/-- The open count of a semaphore, by its name, is that of the table. -/
theorem TableOf.openCount_eq (h : TableOf s t) (hname : cstr name ≠ []) :
    s.openCount name = ((t (cstr name)).map NamedSem.openCount).getD 0 := by
  have heq := congrArg (Option.map Prod.snd) (h.semOf_eq hname)
  rw [Option.map_map, Option.map_map] at heq
  unfold SemState.openCount
  exact congrArg (Option.getD · 0) heq

/-! ### The calls on the table -/

/-- A call on a semaphore of the table changes its entry only, and finds it by its address. -/
theorem TableOf.withSem (h : TableOf s t) (hx : t name = some x)
    (f : CountingSemaphore → Ret Int × CountingSemaphore) :
    ∃ w s', w.count = x.count ∧ s.withSem (semAddr x.addr) f = some ((f w).1, s') ∧
      TableOf s' (Function.update t name (some { x with count := (f w).2.count })) := by
  obtain ⟨l, hrep, hmutex, hnodup, rfl⟩ := h
  obtain ⟨l₁, l₂, v, rfl, hname, hne, hcount, hopen⟩ := table_eq_some hx
  obtain ⟨q, b, -, hcell, -, -⟩ := hrep.cells
  have hnode := node_eq_some.mpr hcell
  obtain ⟨s', hs', hrep', hmutex', -⟩ := hrep.setNode hnode (f v.sem).2 v.openCount
  have haddr : semAddr x.addr - semOffset = x.addr := Nat.add_sub_cancel ..
  refine ⟨v.sem, s', hcount, ?_, _, hrep', hmutex'.trans hmutex, ?_, ?_⟩
  · unfold SemState.withSem
    rw [haddr, hnode]
    show (s.setNode x.addr _ >>= fun s => some ((f v.sem).1, s)) = _
    have hs : s.setNode x.addr ⟨v.buf, (f v.sem).2, v.openCount, q⟩ = some s' := hs'
    rw [hs]
    rfl
  · rw [linkedNames_set (v := v) (by rfl)]
    exact hnodup
  · rw [table_set (v := v) hnodup (by rw [hname]; exact hne) (by rfl), hname, hopen]

/-- `sem_trywait` fails if the count is 0, and lowers it otherwise; no other entry changes. -/
theorem TableOf.trywait (h : TableOf s t) (hx : t name = some x) :
    (x.count = 0 ∧ ∃ s', s.trywait (semAddr x.addr) = some (⟨-1, some .EAGAIN⟩, s') ∧
      TableOf s' t) ∨
    (0 < x.count ∧ ∃ s', s.trywait (semAddr x.addr) = some (⟨0, none⟩, s') ∧
      TableOf s' (Function.update t name (some { x with count := x.count - 1 }))) := by
  obtain ⟨w, s', hcount, hs, htable⟩ := h.withSem hx semTrywait
  by_cases hzero : x.count = 0
  · have hw : semTrywait w = (⟨-1, some .EAGAIN⟩, w) := by simp [semTrywait, hcount, hzero]
    rw [hw] at hs htable
    refine Or.inl ⟨hzero, s', hs, ?_⟩
    rw [hcount, ← hx, Function.update_eq_self] at htable
    exact htable
  · have hw : semTrywait w = (⟨0, none⟩, { w with count := x.count - 1 }) := by
      simp [semTrywait, hcount, Nat.pos_of_ne_zero hzero]
    rw [hw] at hs htable
    exact Or.inr ⟨Nat.pos_of_ne_zero hzero, s', hs, htable⟩

/-- `sem_post` raises the count, and no other entry changes. -/
theorem TableOf.post (h : TableOf s t) (hx : t name = some x) :
    ∃ s', s.post (semAddr x.addr) = some (⟨0, none⟩, s') ∧
      TableOf s' (Function.update t name (some { x with count := x.count + 1 })) := by
  obtain ⟨w, s', hcount, hs, htable⟩ := h.withSem hx semPost
  refine ⟨s', hs, ?_⟩
  rw [← hcount]
  exact htable

/-- **`sem_open` with `O_CREAT` and the value 1** finds the semaphore with the name, or makes it,
    or fails. -/
theorem TableOf.semOpen (h : TableOf s t) (hname : cstr name ≠ []) {buf new : Addr}
    {r : Ret Addr} (hs : Posix.semOpen m s name ⟨true, false⟩ 1 buf new = some (r, s')) :
    (∃ x, t (cstr name) = some x ∧ r = ⟨semAddr x.addr, none⟩ ∧
      TableOf s' (Function.update t (cstr name)
        (some { x with openCount := x.openCount + 1 }))) ∨
    (t (cstr name) = none ∧ r = ⟨semAddr new, none⟩ ∧
      TableOf s' (Function.update t (cstr name) (some ⟨new, 1, 1⟩))) ∨
    (r.val = SEM_FAILED ∧ TableOf s' t) := by
  obtain ⟨l, hrep, hmutex, hnodup, rfl⟩ := h
  rcases semOpen_outcome (m := m) hrep hmutex name ⟨true, false⟩ 1 buf new with
    ⟨hnone, -⟩ | ⟨r', s'', fs, l', hs', hstep, hof, hmu⟩
  · rw [hs] at hnone
    cases hnone
  obtain ⟨rfl, rfl⟩ := Prod.mk.inj (Option.some.inj (hs.symm.trans hs'))
  cases hstep with
  | openEmpty hempty => exact absurd hempty hname
  | openExists _ hv hflag => cases hflag
  | @openFound l₁ l₂ a v _ _ _ _ _ _ hv hflag =>
    have hne : v.name ≠ [] := by
      rw [hv]
      exact hname
    refine Or.inl ⟨⟨a, v.sem.count, v.openCount⟩, ?_, rfl, _, hof.rep, hmu, ?_, ?_⟩
    · rw [table_middle hnodup hne, ← hv, Function.update_self]
    · rw [linkedNames_set (v := v) (by rfl)]
      exact hnodup
    · rw [table_set (v := v) hnodup hne (by rfl), hv]
  | openNoEnt _ hmiss hflag => cases hflag
  | openNoMemName _ hmiss hflag hbuf => exact Or.inr (Or.inr ⟨rfl, _, hof.rep, hmu, hnodup, rfl⟩)
  | openNoMemRecord _ hmiss hflag hbuf hnew =>
    exact Or.inr (Or.inr ⟨rfl, _, hof.rep, hmu, hnodup, rfl⟩)
  | openBadValue _ hmiss hflag hbuf hnew hvalue =>
    exact Or.inr (Or.inr ⟨rfl, _, hof.rep, hmu, hnodup, rfl⟩)
  | openNew _ hmiss hflag hbuf hnew hvalue =>
    -- the new name is not linked
    have hnodup' : (linkedNames (l ++ [(new, ⟨buf, cstr name, .new 1, 1⟩)])).Nodup := by
      have heq : linkedNames (l ++ [(new, (⟨buf, cstr name, .new 1, 1⟩ : RegNode))])
          = linkedNames l ++ [cstr name] := by
        simp [linkedNames, hname]
      rw [heq, List.nodup_append]
      refine ⟨hnodup, List.nodup_singleton _, ?_⟩
      intro n hn n' hn' hnn
      obtain ⟨-, y, hy, hyn⟩ := mem_linkedNames.mp hn
      rw [List.mem_singleton] at hn'
      exact hmiss y hy (hyn.trans (hnn.trans hn'))
    refine Or.inr (Or.inl ⟨table_eq_none hmiss, rfl, _, hof.rep, hmu, hnodup', ?_⟩)
    have htable := table_middle hnodup' (by exact hname)
    rw [List.append_nil] at htable
    exact htable

end Ecos.Posix
