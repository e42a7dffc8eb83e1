import Ecos.Posix.RegistryStep
import Ecos.Lib.Run

namespace Ecos.Posix

open Ecos.Lib

/-!
# The registry over whole runs

The named-semaphore module as a transition system (`semSystem`: its steps are whole calls,
each of which runs under `name_mutex`, and changes of a semaphore by the kernel), and what
holds of `psem_list` in every state it reaches.

* `RegInv` — the invariant on lists, with its step lemma `RegInv.step`;
* `run_inv` — the run lemma: every reached state represents a list with the invariant;
* `RegistryInvariant` — the same facts about the memory itself;
* `registry_invariant` — they hold in every reached state, and every call returns.
-/

/-- The module as a transition system, from an empty `psem_list`; the answers of `malloc` are part
    of the calls. -/
def semSystem (semValueMax : Nat) : LTS SemState (SemCall × SemRet) :=
  .ofFun .empty (semCall semValueMax)

/-- Is this step a successful `sem_open`? These bound the open counts. -/
def isOpen : SemCall × SemRet → Bool
  | (.semOpen .., .ptr r) => r.errno == none
  | _ => false

/-- The number of successful `sem_open` calls of a trace. -/
def opens (as : List (SemCall × SemRet)) : Nat := as.countP isOpen

/-- A step more in the number of opens. -/
theorem opens_append (as : List (SemCall × SemRet)) (a : SemCall × SemRet) :
    opens (as ++ [a]) = opens as + if isOpen a then 1 else 0 := by
  simp [opens, List.countP_append, List.countP_singleton]

/-- The names under which semaphores can be found; an unlinked one has the empty name. -/
def linkedNames (l : Registry) : List (List UInt8) :=
  (l.map fun x => x.2.name).filter (· ≠ [])

/-- The list invariant; `k` bounds the open counts, and is the number of opens of the run. -/
structure RegInv (k : Nat) (l : Registry) : Prop where
  names : (linkedNames l).Nodup
  nonneg : ∀ x ∈ l, 0 ≤ x.2.openCount
  orphan : ∀ x ∈ l, x.2.name = [] → 1 ≤ x.2.openCount
  bound : ∀ x ∈ l, x.2.openCount ≤ k

variable {m k : Nat} {l l' l₁ l₂ : Registry} {a : Addr} {v w : RegNode}

/-- A linked name is a name that is not empty, of some node. -/
theorem mem_linkedNames {n : List UInt8} :
    n ∈ linkedNames l ↔ n ≠ [] ∧ ∃ x ∈ l, x.2.name = n := by
  simp [linkedNames, and_comm]

/-- The names of a list with one node singled out, in the order of the list. -/
theorem linkedNames_middle :
    linkedNames (l₁ ++ (a, v) :: l₂)
      = linkedNames l₁ ++ ([v.name].filter (· ≠ []) ++ linkedNames l₂) := by
  simp only [linkedNames, List.map_append, List.map_cons, List.filter_append, List.filter_cons,
    List.filter_nil]
  split <;> rfl

/-- A larger bound does as well, so that a step that opens nothing keeps the invariant too. -/
theorem RegInv.mono {k' : Nat} (h : RegInv k l) (hk : k ≤ k') : RegInv k' l :=
  ⟨h.names, h.nonneg, h.orphan, fun x hx => (h.bound x hx).trans (by exact_mod_cast hk)⟩

/-- Rewriting a node that keeps its name, or loses it, keeps the invariant when the new
    count is in order. -/
theorem RegInv.set (h : RegInv k (l₁ ++ (a, v) :: l₂)) (hname : w.name = v.name ∨ w.name = [])
    (hpos : 0 ≤ w.openCount) (horphan : w.name = [] → 1 ≤ w.openCount)
    (hbound : w.openCount ≤ k) : RegInv k (l₁ ++ (a, w) :: l₂) := by
  -- the node that changed, or one of the others
  have hmem : ∀ x ∈ l₁ ++ (a, w) :: l₂, x = (a, w) ∨ x ∈ l₁ ++ (a, v) :: l₂ := by
    intro x hx
    rcases List.mem_append.mp hx with hx | hx
    · exact Or.inr (List.mem_append_left _ hx)
    · rcases List.mem_cons.mp hx with rfl | hx
      · exact Or.inl rfl
      · exact Or.inr (List.mem_append_right _ (List.mem_cons_of_mem _ hx))
  refine ⟨?_, fun x hx => ?_, fun x hx => ?_, fun x hx => ?_⟩
  · have hold := h.names
    rw [linkedNames_middle] at hold ⊢
    -- a node that keeps its name, or loses it
    rcases hname with hname | hname
    · rw [hname]; exact hold
    · rw [hname]
      refine hold.sublist ?_
      exact (List.Sublist.refl _).append (List.Sublist.append (by simp) (List.Sublist.refl _))
  · rcases hmem x hx with rfl | hx
    · exact hpos
    · exact h.nonneg x hx
  · rcases hmem x hx with rfl | hx
    · exact horphan
    · exact h.orphan x hx
  · rcases hmem x hx with rfl | hx
    · exact hbound
    · exact h.bound x hx

/-- Removing a node keeps the invariant, whatever node it is. -/
theorem RegInv.remove (h : RegInv k (l₁ ++ (a, v) :: l₂)) : RegInv k (l₁ ++ l₂) := by
  have hsub : (l₁ ++ l₂).Sublist (l₁ ++ (a, v) :: l₂) :=
    (List.Sublist.refl _).append (List.sublist_cons_self _ _)
  exact ⟨h.names.sublist ((hsub.map _).filter _), fun x hx => h.nonneg x (hsub.subset hx),
    fun x hx => h.orphan x (hsub.subset hx), fun x hx => h.bound x (hsub.subset hx)⟩

/-- Appending a semaphore under a name not in use keeps the invariant. -/
theorem RegInv.append (h : RegInv k l) (hmiss : ∀ x ∈ l, x.2.name ≠ v.name)
    (hname : v.name ≠ []) (hcount : v.openCount = 1) (hk : 1 ≤ k) :
    RegInv k (l ++ [(a, v)]) := by
  have hmem : ∀ x ∈ l ++ [(a, v)], x ∈ l ∨ x = (a, v) := by
    intro x hx; simpa using hx
  refine ⟨?_, fun x hx => ?_, fun x hx => ?_, fun x hx => ?_⟩
  · have heq : linkedNames (l ++ [(a, v)]) = linkedNames l ++ [v.name] := by
      simp [linkedNames, hname]
    -- the new name is not in the list
    rw [heq, List.nodup_append]
    refine ⟨h.names, List.nodup_singleton _, ?_⟩
    intro n hn n' hn' hnn
    obtain ⟨-, x, hx, hxn⟩ := mem_linkedNames.mp hn
    rw [List.mem_singleton] at hn'
    exact hmiss x hx (hxn.trans (hnn.trans hn'))
  · rcases hmem x hx with hx | rfl
    · exact h.nonneg x hx
    · show 0 ≤ v.openCount
      omega
  · rcases hmem x hx with hx | rfl
    · exact h.orphan x hx
    · intro _
      show 1 ≤ v.openCount
      omega
  · rcases hmem x hx with hx | rfl
    · exact h.bound x hx
    · show v.openCount ≤ k
      omega

/-- **Step lemma.**  Every outcome of a call keeps the invariant; only a successful
    `sem_open` raises the bound on the counts, by one. -/
theorem RegInv.step (h : RegInv k l) {c : SemCall} {r : SemRet} {fs : List Addr}
    (hs : RegStep m l c r fs l') : RegInv (k + (if isOpen (c, r) then 1 else 0)) l' := by
  cases hs with
  | @openFound l₁ l₂ a v name oflag value buf new hname hv hflag =>
    have hnonneg : 0 ≤ v.openCount := h.nonneg (a, v) (by simp)
    have hbound : v.openCount ≤ k := h.bound (a, v) (by simp)
    refine (h.mono (Nat.le_add_right _ _)).set (Or.inl rfl) ?_ ?_ ?_
    · show 0 ≤ v.openCount + 1
      omega
    · intro _
      show 1 ≤ v.openCount + 1
      omega
    · show v.openCount + 1 ≤ ((k + 1 : ℕ) : Int)
      omega
  | openNew hname hmiss hflag hbuf hnew hvalue =>
    exact (h.mono (Nat.le_add_right _ _)).append hmiss hname rfl (Nat.le_add_left _ _)
  | closeLast hlast hname hwait => exact h.remove
  | @closeDec l₁ l₂ a v hnot hpos =>
    have hbound : v.openCount ≤ k := h.bound (a, v) (by simp)
    refine h.set (Or.inl rfl) ?_ ?_ ?_
    · show 0 ≤ v.openCount - 1
      omega
    · -- an orphan with count 1 would have taken the freeing branch
      intro hempty
      have hne : v.openCount ≠ 1 := fun h1 => hnot ⟨h1, hempty⟩
      show 1 ≤ v.openCount - 1
      omega
    · show v.openCount - 1 ≤ (k : Int)
      omega
  | unlinkFree hname hv hzero hwait => exact h.remove
  | @unlinkMark l₁ l₂ a v name hname hv hopen =>
    have hnonneg : 0 ≤ v.openCount := h.nonneg (a, v) (by simp)
    refine h.set (Or.inr rfl) hnonneg (fun _ => ?_) (h.bound (a, v) (by simp))
    show 1 ≤ v.openCount
    omega
  | @kernelHit l₁ l₂ a v state =>
    exact h.set (Or.inl rfl) (h.nonneg (a, v) (by simp)) (h.orphan (a, v) (by simp))
      (h.bound (a, v) (by simp))
  | _ => exact h.mono (Nat.le_add_right _ _)

/-! ### Runs -/

/-- The state represents the list, which has the invariant, and no call is in progress. -/
structure Good (k : Nat) (s : SemState) (l : Registry) : Prop where
  rep : Rep s l
  inv : RegInv k l
  unlocked : s.nameMutex = false

/-- The module before its first call is good, with the empty list. -/
theorem good_empty : Good 0 .empty [] :=
  ⟨rep_empty, ⟨by simp [linkedNames], by simp, by simp, by simp⟩, rfl⟩

/-- A call on a good state returns, unless a count is at its maximum. -/
theorem Good.progress {s : SemState} (h : Good k s l) (hk : k + 1 < 2 ^ 31) (c : SemCall) :
    ∃ r s', semCall m s c = some (r, s') := by
  rcases semCall_outcome (m := m) h.rep h.unlocked c with
    ⟨-, hover⟩ | ⟨r, s', -, -, hs', -⟩
  · obtain ⟨x, hx, hmax⟩ := hover.atIntMax
    have := h.inv.bound x hx
    omega
  · exact ⟨r, s', hs'⟩

/-- **Step lemma on states.**  A call takes a good state to a good state, and does to the
    list one of the things `RegStep` allows. -/
theorem Good.step {s s' : SemState} {c : SemCall} {r : SemRet} (h : Good k s l)
    (hs : semCall m s c = some (r, s')) :
    ∃ fs l', RegStep m l c r fs l' ∧ s'.heap.frees = s.heap.frees ++ fs ∧
      Good (k + (if isOpen (c, r) then 1 else 0)) s' l' := by
  rcases semCall_outcome (m := m) h.rep h.unlocked c with
    ⟨hnone, -⟩ | ⟨r', s'', fs, l', hs', hstep, hof, hmu⟩
  · rw [hs] at hnone; cases hnone
  · obtain ⟨rfl, rfl⟩ := Prod.mk.inj (Option.some.inj (hs.symm.trans hs'))
    exact ⟨fs, l', hstep, hof.frees, hof.rep, h.inv.step hstep, hmu⟩

/-- **Run lemma.**  Every reached state represents a list with the invariant. -/
theorem run_inv {as : List (SemCall × SemRet)} {s : SemState} (h : (semSystem m).Run as s) :
    ∃ l, Good (opens as) s l := by
  refine h.invariant_trace (I := fun as s => ∃ l, Good (opens as) s l) ?_ ?_
  · rintro s rfl
    exact ⟨[], good_empty⟩
  · rintro as s ⟨c, r⟩ s' - ⟨l, hl⟩ hs
    obtain ⟨fs, l', -, -, hgood⟩ := hl.step (m := m) hs
    refine ⟨l', ?_⟩
    rw [opens_append]
    exact hgood

/-! ### The invariant of the memory -/

/-- The chain of records from `psem_list`, each with its contents, is `l`, as the memory has it. -/
def IsChain (s : SemState) (l : List (Addr × SemName)) : Prop :=
  Seg (fun a => (s.node a).map fun n => (n, n.pnext)) s.psemList l 0

/-- The string in the buffer `pname` of a record, up to its `NUL`. -/
def nameOf (s : SemState) (n : SemName) : Option (List UInt8) := (s.chars n.pname).map cstr

/-- What holds of `psem_list` in every reached state, in terms of the memory alone. -/
structure RegistryInvariant (s : SemState) (l : List (Addr × SemName)) : Prop where
  /-- `l` is the chain from `psem_list`; it ends with `NULL`. -/
  chain : IsChain s l
  /-- No record occurs twice. -/
  acyclic : (l.map Prod.fst).Nodup
  /-- Every record's name can be read. -/
  named : ∀ x ∈ l, ∃ b, nameOf s x.2 = some b
  /-- Names that are not empty are pairwise distinct. -/
  distinct : ∀ x ∈ l, ∀ y ∈ l, nameOf s x.2 ≠ some [] → nameOf s x.2 = nameOf s y.2 → x = y
  count_nonneg : ∀ x ∈ l, 0 ≤ x.2.openCount
  /-- A record whose name was emptied by `sem_unlink` is still open. -/
  orphan : ∀ x ∈ l, nameOf s x.2 = some [] → 1 ≤ x.2.openCount

/-- What a record looks like in memory, against what the list says about it. -/
def Shows (s : SemState) (x : Addr × RegNode) (y : Addr × SemName) : Prop :=
  y.1 = x.1 ∧ nameOf s y.2 = some x.2.name ∧ y.2.openCount = x.2.openCount

/-- The records of a represented list, as they stand in memory: the bridge from the list to
    `IsChain`. -/
theorem Rep.chain {s : SemState} (h : Rep s l) :
    ∃ L : List (Addr × SemName), IsChain s L ∧ List.Forall₂ (Shows s) l L := by
  have key : ∀ {p r l}, Seg (pointsTo s) p l r → ∃ L : List (Addr × SemName),
      Seg (fun a => (s.node a).map fun n => (n, n.pnext)) p L r ∧
        List.Forall₂ (Shows s) l L := by
    intro p r l hp
    induction hp with
    | nil p => exact ⟨[], .nil _, .nil⟩
    | @cons a v q r l hpt _ ih =>
      obtain ⟨hcell, b, hb, hname⟩ := pointsTo_eq_some.mp hpt
      obtain ⟨L, hL, hshow⟩ := ih
      refine ⟨(a, ⟨v.buf, v.sem, v.openCount, q⟩) :: L, .cons ?_ hL, .cons ?_ hshow⟩
      · rw [node_eq_some.mpr hcell, Option.map_some]
      · exact ⟨rfl, by simp [nameOf, chars_eq_some.mpr hb, hname], rfl⟩
  exact key h.seg

/-- Records that are found under one name are one record. -/
theorem RegInv.eq_of_name (h : RegInv k l) {x y : Addr × RegNode} (hx : x ∈ l) (hy : y ∈ l)
    (hne : x.2.name ≠ []) (heq : x.2.name = y.2.name) : x = y := by
  have hmap : linkedNames l = (l.filter fun x => x.2.name ≠ []).map fun x => x.2.name := by
    simp [linkedNames, List.filter_map, Function.comp_def]
  have hnodup := h.names
  rw [hmap] at hnodup
  refine List.inj_on_of_nodup_map hnodup ?_ ?_ heq
  · exact List.mem_filter.mpr ⟨hx, by simpa using hne⟩
  · exact List.mem_filter.mpr ⟨hy, by simpa [← heq] using hne⟩

/-- The invariant on lists is the invariant of the memory that represents them. -/
theorem Good.registryInvariant {s : SemState} (h : Good k s l) :
    ∃ L, RegistryInvariant s L := by
  obtain ⟨L, hchain, hshow⟩ := h.rep.chain
  have hnull : s.node 0 = none := by
    cases hnode : s.node 0 with
    | none => rfl
    | some n =>
      exact absurd (Heap.mem_live_of_cell (node_eq_some.mp hnode)) s.heap.null_not_live
  have hmem : ∀ y ∈ L, ∃ x ∈ l, Shows s x y := by
    intro y hy
    obtain ⟨i, hi, rfl⟩ := List.getElem_of_mem hy
    have hi' : i < l.length := hshow.length_eq ▸ hi
    exact ⟨l[i], List.getElem_mem hi', (List.forall₂_iff_get.mp hshow).2 i hi' hi⟩
  refine ⟨L, hchain, hchain.nodup (by simp [hnull]), ?_, ?_, ?_, ?_⟩
  · intro y hy
    obtain ⟨x, -, -, hname, -⟩ := hmem y hy
    exact ⟨_, hname⟩
  · intro y hy y' hy' hne heq
    obtain ⟨x, hx, hxa, hxn, -⟩ := hmem y hy
    obtain ⟨x', hx', hxa', hxn', -⟩ := hmem y' hy'
    rw [hxn, hxn'] at heq
    rw [hxn] at hne
    -- two nodes of one name are one in the abstract list
    obtain rfl := h.inv.eq_of_name hx hx' (fun hempty => hne (by rw [hempty]))
      (Option.some.inj heq)
    obtain ⟨q, hq⟩ := hchain.pt_of_mem hy
    obtain ⟨q', hq'⟩ := hchain.pt_of_mem hy'
    rw [hxa] at hq
    rw [hxa', hq] at hq'
    exact Prod.ext (hxa.trans hxa'.symm) (Prod.mk.inj (Option.some.inj hq')).1
  · intro y hy
    obtain ⟨x, hx, -, -, hcount⟩ := hmem y hy
    rw [hcount]
    exact h.inv.nonneg x hx
  · intro y hy hempty
    obtain ⟨x, hx, -, hname, hcount⟩ := hmem y hy
    rw [hcount]
    rw [hname] at hempty
    exact h.inv.orphan x hx (Option.some.inj hempty)

/-- **The registry invariant.**  After every sequence of calls, whatever `malloc` and the
    kernel do, the memory satisfies the registry invariant; and while fewer than 2^31
    semaphores were opened every further call returns. -/
theorem registry_invariant {as : List (SemCall × SemRet)} {s : SemState}
    (h : (semSystem m).Run as s) :
    (∃ l, RegistryInvariant s l) ∧
      (opens as + 1 < 2 ^ 31 → ∀ c, ∃ r s', semCall m s c = some (r, s')) := by
  obtain ⟨l, hl⟩ := run_inv h
  exact ⟨hl.registryInvariant, fun hk c => hl.progress hk c⟩

/-- A name opened, unlinked while open, opened again and its first semaphore closed once too
    often. -/
def reopenCalls : List SemCall :=
  [.semOpen [97] ⟨true, false⟩ 1 8 16, .semUnlink [97], .semOpen [97] ⟨true, true⟩ 0 24 32,
    .semClose 20, .semClose 20]

theorem registry_invariant_reopen :
    ∃ rs s, LTS.exec (semCall 5) reopenCalls .empty = some (rs, s) ∧
      rs = [.ptr ⟨20, none⟩, .int ⟨0, none⟩, .ptr ⟨36, none⟩, .int ⟨0, none⟩,
        .int ⟨-1, some .EINVAL⟩] ∧ ∃ l, RegistryInvariant s l := by
  have hsome : (LTS.exec (semCall 5) reopenCalls .empty).map Prod.fst
      = some [.ptr ⟨20, none⟩, .int ⟨0, none⟩, .ptr ⟨36, none⟩, .int ⟨0, none⟩,
        .int ⟨-1, some .EINVAL⟩] := by decide +kernel
  obtain ⟨⟨rs, s⟩, hcalls, hrs⟩ := Option.map_eq_some_iff.mp hsome
  exact ⟨rs, s, hcalls, hrs, (registry_invariant (LTS.Run.exec (.init rfl) hcalls)).1⟩

end Ecos.Posix
