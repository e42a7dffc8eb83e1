import Ecos.Posix.NamedSemaphore

namespace Ecos.Posix

open Ecos.Lib

/-!
# The list behind `psem_list`

What the pointer structure of `sem.cxx` stands for, and what one call does to it.

* `pointsTo`, `Rep s l` — in `s` the chain from `psem_list` is the list `l` of named
  semaphores, and the module owns exactly their name buffers and records;
* `Rep.searchName`, `Rep.searchSem` — where the search loops stop;
* `Rep.setNode`, `Rep.setName`, `Rep.insertNode`, `Rep.remove` — the edits the calls make.
-/

/-- What a `sem_name` record holds, its name read through `pname` up to the terminating `NUL`. -/
structure RegNode where
  buf : Addr
  name : List UInt8
  sem : CountingSemaphore
  openCount : Int
  deriving DecidableEq, Repr

/-- The named semaphores on the list, each with the address of its record, in the order of the
    list. -/
abbrev Registry := List (Addr × RegNode)

/-- The record at `a` with its name, and its link field. -/
def pointsTo (s : SemState) (a : Addr) : Option (RegNode × Addr) := do
  let n ← s.node a
  let b ← s.chars n.pname
  return (⟨n.pname, cstr b, n.sem, n.openCount⟩, n.pnext)

/-- Addresses of the records and of the name buffers: everything that the module has allocated. -/
def Registry.blocks (l : Registry) : List Addr := l.map Prod.fst ++ l.map (fun x => x.2.buf)

/-- `s` represents `l`: the chain in memory has these records, and the module owns their blocks and
    no others. -/
structure Rep (s : SemState) (l : Registry) : Prop where
  /-- The chain from `psem_list` is `l`, and it is NULL-terminated. -/
  seg : Seg (pointsTo s) s.psemList l 0
  /-- The module owns the records and name buffers of `l` and nothing else. -/
  live : ∀ a, a ∈ s.heap.live ↔ a ∈ Registry.blocks l
  /-- These are all different blocks. -/
  nodup : (Registry.blocks l).Nodup

/-! ### Reading memory -/

variable {s s' : SemState} {l l₁ l₂ : Registry} {a : Addr} {v w : RegNode} {q : Addr}

/-- A record that can be read is a block of the heap. -/
theorem node_eq_some {n : SemName} :
    s.node a = some n ↔ s.heap.cell a = some (.semName n) := by
  unfold SemState.node Heap.load
  split <;> simp_all

/-- A buffer that can be read is a block of the heap. -/
theorem chars_eq_some {b : List UInt8} :
    s.chars a = some b ↔ s.heap.cell a = some (.chars b) := by
  unfold SemState.chars Heap.load
  split <;> simp_all

/-- What a record points to, read off the blocks. -/
theorem pointsTo_eq_some :
    pointsTo s a = some (v, q) ↔
      s.heap.cell a = some (.semName ⟨v.buf, v.sem, v.openCount, q⟩) ∧
        ∃ b, s.heap.cell v.buf = some (.chars b) ∧ cstr b = v.name := by
  obtain ⟨buf, name, sem, openCount⟩ := v
  constructor
  · intro h
    obtain ⟨n, hn, h⟩ := Option.bind_eq_some_iff.mp h
    obtain ⟨b, hb, h⟩ := Option.bind_eq_some_iff.mp h
    obtain ⟨⟨rfl, rfl, rfl, rfl⟩, rfl⟩ := by simpa using h
    exact ⟨node_eq_some.mp hn, b, chars_eq_some.mp hb, rfl⟩
  · rintro ⟨hn, b, hb, rfl⟩
    simp [pointsTo, node_eq_some.mpr hn, chars_eq_some.mpr hb]

/-- `NULL` points to nothing, so that a chain ends there. -/
theorem pointsTo_null (s : SemState) : pointsTo s 0 = none := by
  cases h : pointsTo s 0 with
  | none => rfl
  | some x =>
    obtain ⟨hc, -⟩ := pointsTo_eq_some.mp (show pointsTo s 0 = some (x.1, x.2) from h)
    exact absurd (Heap.mem_live_of_cell hc) s.heap.null_not_live

/-- A record keeps what it points to when its own block and its name buffer keep their
    contents. -/
theorem pointsTo_agree (h : pointsTo s a = some (v, q))
    (ha : s'.heap.cell a = s.heap.cell a) (hb : s'.heap.cell v.buf = s.heap.cell v.buf) :
    pointsTo s' a = pointsTo s a := by
  obtain ⟨hn, b, hc, hname⟩ := pointsTo_eq_some.mp h
  rw [h]
  exact pointsTo_eq_some.mpr ⟨ha.trans hn, b, hb.trans hc, hname⟩

/-! ### Blocks of a list -/

namespace Registry

/-- An empty list owns no blocks. -/
@[simp] theorem blocks_nil : blocks [] = [] := rfl

/-- The blocks of a list are the records and the buffers of its nodes. -/
theorem mem_blocks {c : Addr} : c ∈ blocks l ↔ ∃ x ∈ l, c = x.1 ∨ c = x.2.buf := by
  simp only [blocks, List.mem_append, List.mem_map]
  constructor
  · rintro (⟨x, hx, rfl⟩ | ⟨x, hx, rfl⟩)
    · exact ⟨x, hx, Or.inl rfl⟩
    · exact ⟨x, hx, Or.inr rfl⟩
  · rintro ⟨x, hx, rfl | rfl⟩
    · exact Or.inl ⟨x, hx, rfl⟩
    · exact Or.inr ⟨x, hx, rfl⟩

/-- The blocks of a list with one node singled out, up to order: its two, and those of the
    others. -/
theorem blocks_perm (l₁ l₂ : Registry) (a : Addr) (v : RegNode) :
    (blocks (l₁ ++ (a, v) :: l₂)).Perm (a :: v.buf :: blocks (l₁ ++ l₂)) := by
  simp only [blocks, List.map_append, List.map_cons, List.append_assoc, List.cons_append]
  refine List.perm_middle.trans (List.Perm.cons a ?_)
  refine (List.Perm.append_left _ (List.Perm.append_left _ List.perm_middle)).trans ?_
  refine (List.Perm.append_left _ List.perm_middle).trans ?_
  exact List.perm_middle

/-- There are two blocks for each node. -/
theorem length_blocks (l : Registry) : (blocks l).length = 2 * l.length := by
  simp [blocks]; omega

end Registry

/-- The module owns twice as many blocks as there are named semaphores. -/
theorem Rep.card_live (h : Rep s l) : s.heap.live.card = 2 * l.length := by
  have hset : s.heap.live = (Registry.blocks l).toFinset := by
    ext a; rw [h.live a, List.mem_toFinset]
  rw [hset, List.toFinset_card_of_nodup h.nodup, Registry.length_blocks]

/-- The record of a list node is readable. -/
theorem Rep.node_of_mem (h : Rep s l) {x : Addr × RegNode} (hx : x ∈ l) :
    ∃ q, pointsTo s x.1 = some (x.2, q) := h.seg.pt_of_mem hx

/-- The record and the name buffer of one node of a represented list, as blocks of the heap. -/
theorem Rep.cells (h : Rep s (l₁ ++ (a, v) :: l₂)) :
    ∃ q b, pointsTo s a = some (v, q) ∧
      s.heap.cell a = some (.semName ⟨v.buf, v.sem, v.openCount, q⟩) ∧
      s.heap.cell v.buf = some (.chars b) ∧ cstr b = v.name := by
  obtain ⟨q, hq⟩ := h.node_of_mem (List.mem_append_right l₁ (List.mem_cons_self (a := (a, v))))
  obtain ⟨hn, b, hb, hname⟩ := pointsTo_eq_some.mp hq
  exact ⟨q, b, hq, hn, hb, hname⟩

/-- The facts about one node of a represented list: it is none of the other blocks. -/
theorem Rep.separate (h : Rep s (l₁ ++ (a, v) :: l₂)) :
    a ≠ v.buf ∧ a ∉ Registry.blocks (l₁ ++ l₂) ∧ v.buf ∉ Registry.blocks (l₁ ++ l₂) := by
  have hn := (Registry.blocks_perm l₁ l₂ a v).nodup_iff.mp h.nodup
  simp only [List.nodup_cons, List.mem_cons, not_or] at hn
  exact ⟨hn.1.1, hn.1.2, hn.2.1⟩

/-- Every other node of a represented list lives in other blocks. -/
theorem Rep.ne_of_mem (h : Rep s (l₁ ++ (a, v) :: l₂)) {x : Addr × RegNode}
    (hx : x ∈ l₁ ++ l₂) :
    x.1 ≠ a ∧ x.1 ≠ v.buf ∧ x.2.buf ≠ a ∧ x.2.buf ≠ v.buf := by
  obtain ⟨-, ha, hb⟩ := h.separate
  have h₁ : x.1 ∈ Registry.blocks (l₁ ++ l₂) := Registry.mem_blocks.mpr ⟨x, hx, Or.inl rfl⟩
  have h₂ : x.2.buf ∈ Registry.blocks (l₁ ++ l₂) :=
    Registry.mem_blocks.mpr ⟨x, hx, Or.inr rfl⟩
  exact ⟨ne_of_mem_of_not_mem h₁ ha, ne_of_mem_of_not_mem h₁ hb,
    ne_of_mem_of_not_mem h₂ ha, ne_of_mem_of_not_mem h₂ hb⟩

/-- A list node keeps what it points to when its two blocks keep their contents. -/
theorem Rep.agree (h : Rep s l) {x : Addr × RegNode} (hx : x ∈ l)
    (ha : s'.heap.cell x.1 = s.heap.cell x.1)
    (hb : s'.heap.cell x.2.buf = s.heap.cell x.2.buf) : pointsTo s' x.1 = pointsTo s x.1 := by
  obtain ⟨q, hq⟩ := h.node_of_mem hx
  exact pointsTo_agree hq ha hb

/-- `name_mutex` plays no part in what the memory represents, so that a call can be taken apart
    from its lock. -/
theorem Rep.setMutex (h : Rep s l) (b : Bool) : Rep { s with nameMutex := b } l :=
  ⟨h.seg, h.live, h.nodup⟩

/-- The empty module represents the empty list, where every run begins. -/
theorem rep_empty : Rep .empty [] := ⟨.nil 0, by simp [SemState.empty, Heap.empty], by simp⟩

/-! ### The search loops -/

/-- Where a search stops: at the first node that matches, or past the end. -/
theorem Rep.search (h : Rep s l) (hit : Addr → SemName → Option Bool)
    (f : Addr × RegNode → Bool)
    (hf : ∀ x q, pointsTo s x.1 = some (x.2, q) → (s.node x.1 >>= hit x.1) = some (f x)) :
    (∃ l₁ a v l₂, l = l₁ ++ (a, v) :: l₂ ∧ f (a, v) = true ∧
        s.search hit = some (a, (l₁.map Prod.fst).getLastD s.psemList)) ∨
      ((∀ x ∈ l, f x = false) ∧
        s.search hit = some (0, (l.map Prod.fst).getLastD s.psemList)) := by
  -- the walk follows the links of the list
  have hnext : ∀ a v q, pointsTo s a = some (v, q) →
      (s.node a).map SemName.pnext = some q := by
    intro a v q hpt
    rw [node_eq_some.mpr (pointsTo_eq_some.mp hpt).1, Option.map_some]
  have hhit : ∀ x ∈ l, (s.node x.1 >>= hit x.1) = some (f x) := by
    intro x hx
    obtain ⟨q, hq⟩ := h.node_of_mem hx
    exact hf x q hq
  have hcard := h.card_live
  cases hfind : l.find? f with
  | none =>
    right
    have hmiss : ∀ x ∈ l, f x = false := by
      intro x hx
      simpa using List.find?_eq_none.mp hfind x hx
    refine ⟨hmiss, walk_miss (pointsTo_null s) hnext h.seg ?_ (by omega) _⟩
    intro x hx
    rw [hhit x hx, hmiss x hx]
  | some y =>
    left
    obtain ⟨hy, l₁, l₂, rfl, hmiss⟩ := List.find?_eq_some_iff_append.mp hfind
    obtain ⟨a, v⟩ := y
    refine ⟨l₁, a, v, l₂, rfl, hy, ?_⟩
    refine walk_hit (pointsTo_null s) hnext h.seg ?_ ?_ ?_ _
    · intro x hx
      rw [hhit x (by simp [hx])]
      simpa using hmiss x hx
    · rw [hhit (a, v) (by simp), hy]
    · simp only [List.length_append, List.length_cons] at hcard
      omega

/-- Where the search for a name stops: at the first node of that name, with its predecessor, or at
    the end. -/
theorem Rep.searchName (h : Rep s l) (name : List UInt8) :
    (∃ l₁ a v l₂, l = l₁ ++ (a, v) :: l₂ ∧ v.name = cstr name ∧
        s.searchName name = some (a, (l₁.map Prod.fst).getLastD s.psemList)) ∨
      ((∀ x ∈ l, x.2.name ≠ cstr name) ∧
        s.searchName name = some (0, (l.map Prod.fst).getLastD s.psemList)) := by
  have hf : ∀ (x : Addr × RegNode) (q : Addr), pointsTo s x.1 = some (x.2, q) →
      (s.node x.1 >>= fun n => (s.chars n.pname).map (strEq name))
        = some (cstr name == x.2.name) := by
    intro x q hpt
    obtain ⟨hn, b, hb, hname⟩ := pointsTo_eq_some.mp hpt
    simp [node_eq_some.mpr hn, chars_eq_some.mpr hb, strEq, hname]
  rcases h.search (fun _ n => (s.chars n.pname).map (strEq name))
      (fun x => cstr name == x.2.name) hf with
    ⟨l₁, a, v, l₂, rfl, hv, hs⟩ | ⟨hmiss, hs⟩
  · exact Or.inl ⟨l₁, a, v, l₂, rfl, (beq_iff_eq.mp hv).symm, hs⟩
  · refine Or.inr ⟨fun x hx heq => ?_, hs⟩
    have := hmiss x hx
    simp [heq] at this

/-- Where the search for a semaphore address stops: at the node it belongs to, or at the end. -/
theorem Rep.searchSem (h : Rep s l) (sem : Addr) :
    (∃ l₁ a v l₂, l = l₁ ++ (a, v) :: l₂ ∧ sem = semAddr a ∧
        s.searchSem sem = some (a, (l₁.map Prod.fst).getLastD s.psemList)) ∨
      ((∀ x ∈ l, sem ≠ semAddr x.1) ∧
        s.searchSem sem = some (0, (l.map Prod.fst).getLastD s.psemList)) := by
  have hf : ∀ (x : Addr × RegNode) (q : Addr), pointsTo s x.1 = some (x.2, q) →
      (s.node x.1 >>= fun _ => some (sem == semAddr x.1)) = some (sem == semAddr x.1) := by
    intro x q hpt
    simp [node_eq_some.mpr (pointsTo_eq_some.mp hpt).1]
  rcases h.search (fun p _ => some (sem == semAddr p)) (fun x => sem == semAddr x.1) hf with
    ⟨l₁, a, v, l₂, rfl, hv, hs⟩ | ⟨hmiss, hs⟩
  · exact Or.inl ⟨l₁, a, v, l₂, rfl, beq_iff_eq.mp hv, hs⟩
  · refine Or.inr ⟨fun x hx heq => ?_, hs⟩
    have := hmiss x hx
    simp [heq] at this

/-- Records are not at `NULL`, so that a record found can be told from none. -/
theorem Rep.ne_null (h : Rep s (l₁ ++ (a, v) :: l₂)) : a ≠ 0 := by
  rintro rfl
  obtain ⟨q, b, hq, -⟩ := h.cells
  rw [pointsTo_null] at hq
  cases hq

/-! ### The edits -/

/-- `*a = n` on a live block changes that block only, and is defined. -/
theorem exists_setNode (ha : a ∈ s.heap.live) (n : SemName) :
    ∃ h', s.setNode a n = some { s with heap := h' } ∧ h'.live = s.heap.live ∧
      h'.frees = s.heap.frees ∧
      h'.cell = Function.update s.heap.cell a (some (.semName n)) := by
  obtain ⟨h', hs⟩ := Heap.exists_store (.semName n) ha
  obtain ⟨-, hl, hf, hc⟩ := Heap.store_eq_some.mp hs
  exact ⟨h', by simp [SemState.setNode, hs], hl, hf, hc⟩

/-- Overwriting a live buffer changes that block only, and is defined. -/
theorem exists_setChars (ha : a ∈ s.heap.live) (b : List UInt8) :
    ∃ h', s.setChars a b = some { s with heap := h' } ∧ h'.live = s.heap.live ∧
      h'.frees = s.heap.frees ∧
      h'.cell = Function.update s.heap.cell a (some (.chars b)) := by
  obtain ⟨h', hs⟩ := Heap.exists_store (.chars b) ha
  obtain ⟨-, hl, hf, hc⟩ := Heap.store_eq_some.mp hs
  exact ⟨h', by simp [SemState.setChars, hs], hl, hf, hc⟩

/-- `free` of a live block removes that block only, and is defined. -/
theorem exists_free (ha : a ∈ s.heap.live) :
    ∃ h', s.free a = some { s with heap := h' } ∧ h'.live = s.heap.live.erase a ∧
      h'.frees = s.heap.frees ++ [a] ∧ h'.cell = Function.update s.heap.cell a none := by
  obtain ⟨h', hs⟩ := Heap.exists_free ha
  obtain ⟨-, hl, hf, hc⟩ := Heap.free_eq_some.mp hs
  exact ⟨h', by simp [SemState.free, hs], hl, hf, hc⟩

/-- A represented list with the payload of one node replaced in memory represents the list
    with that payload replaced. -/
theorem Rep.of_set (h : Rep s (l₁ ++ (a, v) :: l₂)) (hbuf : w.buf = v.buf)
    (hp : s'.psemList = s.psemList) (hl : s'.heap.live = s.heap.live)
    (hq : pointsTo s a = some (v, q)) (ha : pointsTo s' a = some (w, q))
    (hc : ∀ c, c ≠ a → c ≠ v.buf → s'.heap.cell c = s.heap.cell c) :
    Rep s' (l₁ ++ (a, w) :: l₂) := by
  have hblocks : Registry.blocks (l₁ ++ (a, w) :: l₂) = Registry.blocks (l₁ ++ (a, v) :: l₂) := by
    simp [Registry.blocks, hbuf]
  have hag : ∀ x ∈ l₁ ++ l₂, pointsTo s' x.1 = pointsTo s x.1 := by
    intro x hx
    obtain ⟨h₁, h₂, h₃, h₄⟩ := h.ne_of_mem hx
    refine h.agree (x := x) ?_ (hc _ h₁ h₂) (hc _ h₃ h₄)
    rcases List.mem_append.mp hx with hx | hx
    · exact List.mem_append_left _ hx
    · exact List.mem_append_right _ (List.mem_cons_of_mem _ hx)
  refine ⟨?_, ?_, ?_⟩
  · rw [hp]
    exact h.seg.set hq ha (fun x hx => hag x (List.mem_append_left _ hx))
      (fun x hx => hag x (List.mem_append_right _ hx))
  · intro c; rw [hl, hblocks]; exact h.live c
  · rw [hblocks]; exact h.nodup

/-- Rewriting the semaphore and the count of a node in memory rewrites it on the list. -/
theorem Rep.setNode (h : Rep s (l₁ ++ (a, v) :: l₂)) {n : SemName} (hn : s.node a = some n)
    (sem : CountingSemaphore) (k : Int) :
    ∃ s', s.setNode a { n with sem := sem, openCount := k } = some s' ∧
      Rep s' (l₁ ++ (a, { v with sem := sem, openCount := k }) :: l₂) ∧
      s'.nameMutex = s.nameMutex ∧ s'.heap.frees = s.heap.frees := by
  obtain ⟨q, b, hq, hcell, hb, hname⟩ := h.cells
  obtain rfl : n = _ := by
    have := (node_eq_some.mp hn).symm.trans hcell
    simpa using this
  obtain ⟨hne, -, -⟩ := h.separate
  obtain ⟨h', hs, hl, hf, hc⟩ := exists_setNode (Heap.mem_live_of_cell hcell)
    ⟨v.buf, sem, k, q⟩
  refine ⟨_, hs, ?_, rfl, hf⟩
  refine h.of_set (w := { v with sem := sem, openCount := k }) rfl rfl hl hq ?_ ?_
  · refine pointsTo_eq_some.mpr ⟨by simp [hc], b, ?_, hname⟩
    rw [hc, Function.update_of_ne hne.symm]
    exact hb
  · intro c hca _
    rw [hc, Function.update_of_ne hca]

/-- Rewriting the name buffer of a node in memory renames it on the list. -/
theorem Rep.setName (h : Rep s (l₁ ++ (a, v) :: l₂)) (b : List UInt8) :
    ∃ s', s.setChars v.buf b = some s' ∧
      Rep s' (l₁ ++ (a, { v with name := cstr b }) :: l₂) ∧
      s'.nameMutex = s.nameMutex ∧ s'.heap.frees = s.heap.frees := by
  obtain ⟨q, b₀, hq, hcell, hb, -⟩ := h.cells
  obtain ⟨hne, -, -⟩ := h.separate
  obtain ⟨h', hs, hl, hf, hc⟩ := exists_setChars (Heap.mem_live_of_cell hb) b
  refine ⟨_, hs, ?_, rfl, hf⟩
  refine h.of_set (w := { v with name := cstr b }) rfl rfl hl hq ?_ ?_
  · refine pointsTo_eq_some.mpr ⟨?_, b, by simp [hc], rfl⟩
    rw [hc, Function.update_of_ne hne]
    exact hcell
  · intro c _ hcb
    rw [hc, Function.update_of_ne hcb]

/-- The blocks left when the two blocks of one node are freed: those of the other nodes. -/
theorem Rep.live_remove (h : Rep s (l₁ ++ (a, v) :: l₂)) (c : Addr) :
    c ∈ (s.heap.live.erase v.buf).erase a ↔ c ∈ Registry.blocks (l₁ ++ l₂) := by
  obtain ⟨hne, ha, hb⟩ := h.separate
  rw [Finset.mem_erase, Finset.mem_erase, h.live c, (Registry.blocks_perm l₁ l₂ a v).mem_iff,
    List.mem_cons, List.mem_cons]
  constructor
  · rintro ⟨h₁, h₂, rfl | rfl | h₃⟩
    · exact absurd rfl h₁
    · exact absurd rfl h₂
    · exact h₃
  · intro hc
    exact ⟨ne_of_mem_of_not_mem hc ha, ne_of_mem_of_not_mem hc hb, Or.inr (Or.inr hc)⟩

/-- A list without one node still has distinct blocks. -/
theorem Rep.nodup_remove (h : Rep s (l₁ ++ (a, v) :: l₂)) :
    (Registry.blocks (l₁ ++ l₂)).Nodup := by
  have hn := (Registry.blocks_perm l₁ l₂ a v).nodup_iff.mp h.nodup
  exact (List.nodup_cons.mp (List.nodup_cons.mp hn).2).2

/-- Freeing the name and the record of a node that the list no longer passes through. -/
theorem Rep.freeNode (h : Rep s (l₁ ++ (a, v) :: l₂)) (s₁ : SemState)
    (hl : s₁.heap.live = s.heap.live) (hf : s₁.heap.frees = s.heap.frees)
    (hseg : Seg (pointsTo s₁) s₁.psemList (l₁ ++ l₂) 0) :
    ∃ s', (s₁.free v.buf >>= fun s => s.free a) = some s' ∧ Rep s' (l₁ ++ l₂) ∧
      s'.nameMutex = s₁.nameMutex ∧ s'.heap.frees = s.heap.frees ++ [v.buf, a] := by
  obtain ⟨q, b, -, hcell, hb, -⟩ := h.cells
  obtain ⟨hne, -, -⟩ := h.separate
  obtain ⟨h₂, hf₂, hl₂, hfr₂, hc₂⟩ := exists_free (s := s₁) (a := v.buf)
    (by rw [hl]; exact Heap.mem_live_of_cell hb)
  -- the second block is another one, so that it is still there
  have ha₂ : a ∈ h₂.live := by
    rw [hl₂, hl]
    exact Finset.mem_erase.mpr ⟨hne, Heap.mem_live_of_cell hcell⟩
  obtain ⟨h₃, hf₃, hl₃, hfr₃, hc₃⟩ := exists_free (s := { s₁ with heap := h₂ }) ha₂
  dsimp only at hl₃ hfr₃ hc₃
  refine ⟨{ s₁ with heap := h₃ }, ?_, ⟨?_, ?_, h.nodup_remove⟩, rfl, ?_⟩
  · rw [hf₂]; exact hf₃
  -- the nodes that are left are in neither block
  · refine hseg.congr fun x hx => ?_
    obtain ⟨q', hq'⟩ := hseg.pt_of_mem hx
    obtain ⟨e₁, e₂, e₃, e₄⟩ := h.ne_of_mem hx
    refine pointsTo_agree hq' ?_ ?_
    · simp only [hc₃, hc₂, Function.update_of_ne e₁, Function.update_of_ne e₂]
    · simp only [hc₃, hc₂, Function.update_of_ne e₃, Function.update_of_ne e₄]
  · intro c
    show c ∈ h₃.live ↔ _
    rw [hl₃, hl₂, hl]
    exact h.live_remove c
  · show h₃.frees = _
    rw [hfr₃, hfr₂, hf, List.append_assoc]
    rfl

/-- Redirecting the link of the predecessor `p` of `a` past `a`; `a` itself is still allocated. -/
theorem Rep.unlinkNode {l₀ : Registry} {p : Addr} {u : RegNode}
    (h : Rep s (l₀ ++ (p, u) :: (a, v) :: l₂)) (hq : pointsTo s a = some (v, q)) :
    ∃ m s₁, s.node p = some m ∧ s.setNode p { m with pnext := q } = some s₁ ∧
      Seg (pointsTo s₁) s₁.psemList (l₀ ++ [(p, u)] ++ l₂) 0 ∧ s₁.heap.live = s.heap.live ∧
      s₁.heap.frees = s.heap.frees ∧ s₁.nameMutex = s.nameMutex := by
  obtain ⟨qp, b, -, hcell, hb, hname⟩ := h.cells
  obtain ⟨hne, -, -⟩ := h.separate
  obtain ⟨h₁, hs₁, hl₁, hfr₁, hc₁⟩ := exists_setNode (Heap.mem_live_of_cell hcell)
    ⟨u.buf, u.sem, u.openCount, q⟩
  refine ⟨_, { s with heap := h₁ }, node_eq_some.mpr hcell, hs₁, ?_, hl₁, hfr₁, rfl⟩
  -- the predecessor alone is written
  have hag : ∀ x ∈ l₀ ++ (a, v) :: l₂, pointsTo { s with heap := h₁ } x.1 = pointsTo s x.1 := by
    intro x hx
    obtain ⟨e₁, -, e₂, -⟩ := h.ne_of_mem hx
    have hx' : x ∈ l₀ ++ (p, u) :: (a, v) :: l₂ := by
      rcases List.mem_append.mp hx with hx | hx
      · exact List.mem_append_left _ hx
      · exact List.mem_append_right _ (List.mem_cons_of_mem _ hx)
    refine h.agree hx' ?_ ?_
    · simp only [hc₁, Function.update_of_ne e₁]
    · simp only [hc₁, Function.update_of_ne e₂]
  have hp : pointsTo { s with heap := h₁ } p = some (u, q) := by
    refine pointsTo_eq_some.mpr ⟨by simp [hc₁], b, ?_, hname⟩
    simp only [hc₁, Function.update_of_ne (Ne.symm hne)]
    exact hb
  have hseg := h.seg.unlink hq hp (fun x hx => hag x (List.mem_append_left _ hx))
    (fun x hx => hag x (List.mem_append_right _ (List.mem_cons_of_mem _ hx)))
  simpa using hseg

/-- **Removal.**  Unlinking a node and freeing its name and its record, in this order,
    leaves the list without it. -/
theorem Rep.remove (h : Rep s (l₁ ++ (a, v) :: l₂)) :
    ∃ s', s.remove a ((l₁.map Prod.fst).getLastD s.psemList) = some s' ∧
      Rep s' (l₁ ++ l₂) ∧ s'.nameMutex = s.nameMutex ∧
      s'.heap.frees = s.heap.frees ++ [v.buf, a] := by
  obtain ⟨q, b, hq, hcell, hb, -⟩ := h.cells
  have hnode := node_eq_some.mpr hcell
  rcases List.eq_nil_or_concat l₁ with rfl | ⟨l₀, ⟨p, u⟩, rfl⟩
  · -- `psem == plast`: the node is the head
    obtain ⟨hhead, q', hq', hrest⟩ := Seg.cons_iff.mp h.seg
    obtain rfl : q' = q := (Prod.mk.inj (Option.some.inj (hq'.symm.trans hq))).2
    let s₁ : SemState := { s with psemList := q' }
    obtain ⟨s', hs', hrep, hm, hfr⟩ := h.freeNode s₁ rfl rfl hrest
    refine ⟨s', ?_, hrep, hm, hfr⟩
    simpa [SemState.remove, hnode, hhead] using hs'
  · -- `plast` is the predecessor
    simp only [List.concat_eq_append] at h ⊢
    have hpa : p ≠ a := (h.ne_of_mem (x := (p, u)) (by simp)).1
    have h' : Rep s (l₀ ++ (p, u) :: (a, v) :: l₂) := by simpa using h
    obtain ⟨m, s₁, hm, hs₁, hseg, hl₁, hfr₁, hmu⟩ := h'.unlinkNode hq
    obtain ⟨s', hs', hrep, hm', hfr⟩ := h.freeNode s₁ hl₁ hfr₁ hseg
    refine ⟨s', ?_, hrep, hm'.trans hmu, hfr⟩
    simpa [SemState.remove, hnode, hm, hs₁, Ne.symm hpa] using hs'

/-- **Insertion.**  A record and a name buffer fresh from `malloc`, filled in and linked
    behind the last node, extend the list by one node. -/
theorem Rep.insertNode (h : Rep s l) {buf new : Addr} {c : List UInt8} {n : SemName}
    {h₁ h₂ : Heap Block} (hm₁ : s.heap.malloc buf (.chars c) = some h₁)
    (hm₂ : h₁.malloc new (.semName n) = some h₂) (name : List UInt8)
    (sem : CountingSemaphore) :
    ∃ s₁ s₂ s', ({ s with heap := h₂ } : SemState).setChars buf (strcpy name) = some s₁ ∧
      s₁.setNode new ⟨buf, sem, 1, 0⟩ = some s₂ ∧
      s₂.link ((l.map Prod.fst).getLastD s.psemList) new = some s' ∧
      Rep s' (l ++ [(new, ⟨buf, cstr name, sem, 1⟩)]) ∧ s'.nameMutex = s.nameMutex ∧
      s'.heap.frees = s.heap.frees := by
  obtain ⟨hbuf0, hbuf, hl₁, hfr₁, hc₁⟩ := Heap.malloc_eq_some.mp hm₁
  obtain ⟨hnew0, hnew, hl₂, hfr₂, hc₂⟩ := Heap.malloc_eq_some.mp hm₂
  rw [hl₁, Finset.mem_insert, not_or] at hnew
  obtain ⟨h₃, hs₃, hl₃, hfr₃, hc₃⟩ := exists_setChars (s := { s with heap := h₂ }) (a := buf)
    (by rw [hl₂, hl₁]; simp) (strcpy name)
  dsimp only at hs₃ hl₃ hfr₃ hc₃
  obtain ⟨h₄, hs₄, hl₄, hfr₄, hc₄⟩ := exists_setNode (s := { s with heap := h₃ }) (a := new)
    (by rw [hl₃, hl₂]; simp) ⟨buf, sem, 1, 0⟩
  dsimp only at hs₄ hl₄ hfr₄ hc₄
  have hlive : h₄.live = insert new (insert buf s.heap.live) := by rw [hl₄, hl₃, hl₂, hl₁]
  have hfrees : h₄.frees = s.heap.frees := by rw [hfr₄, hfr₃, hfr₂, hfr₁]
  -- the blocks of `l` are not the two new ones
  have hold : ∀ x ∈ l, x.1 ≠ buf ∧ x.1 ≠ new ∧ x.2.buf ≠ buf ∧ x.2.buf ≠ new := by
    intro x hx
    have e₁ : x.1 ∈ s.heap.live := (h.live _).mpr (Registry.mem_blocks.mpr ⟨x, hx, Or.inl rfl⟩)
    have e₂ : x.2.buf ∈ s.heap.live :=
      (h.live _).mpr (Registry.mem_blocks.mpr ⟨x, hx, Or.inr rfl⟩)
    exact ⟨ne_of_mem_of_not_mem e₁ hbuf, ne_of_mem_of_not_mem e₁ hnew.2,
      ne_of_mem_of_not_mem e₂ hbuf, ne_of_mem_of_not_mem e₂ hnew.2⟩
  have hcell : ∀ d, d ≠ buf → d ≠ new → h₄.cell d = s.heap.cell d := by
    intro d hd₁ hd₂
    rw [hc₄, Function.update_of_ne hd₂, hc₃, Function.update_of_ne hd₁, hc₂,
      Function.update_of_ne hd₂, hc₁, Function.update_of_ne hd₁]
  have hcnew : h₄.cell new = some (.semName ⟨buf, sem, 1, 0⟩) := by rw [hc₄]; simp
  have hcbuf : h₄.cell buf = some (.chars (strcpy name)) := by
    rw [hc₄, Function.update_of_ne (Ne.symm hnew.1), hc₃]; simp
  have hblocks : ∀ d, d ∈ h₄.live ↔
      d ∈ Registry.blocks (l ++ [(new, ⟨buf, cstr name, sem, 1⟩)]) := by
    intro d
    have hp := Registry.blocks_perm l [] new ⟨buf, cstr name, sem, 1⟩
    rw [hlive, Finset.mem_insert, Finset.mem_insert, h.live d, hp.mem_iff, List.append_nil,
      List.mem_cons, List.mem_cons]
  have hnodup : (Registry.blocks (l ++ [(new, ⟨buf, cstr name, sem, 1⟩)])).Nodup := by
    rw [(Registry.blocks_perm l [] new ⟨buf, cstr name, sem, 1⟩).nodup_iff, List.append_nil,
      List.nodup_cons, List.nodup_cons, List.mem_cons, not_or, ← h.live, ← h.live]
    exact ⟨⟨hnew.1, hnew.2⟩, hbuf, h.nodup⟩
  have hfin : ∀ s' : SemState, s'.heap.cell new = some (.semName ⟨buf, sem, 1, 0⟩) →
      s'.heap.cell buf = some (.chars (strcpy name)) →
      pointsTo s' new = some (⟨buf, cstr name, sem, 1⟩, 0) := fun s' h₁ h₂ =>
    pointsTo_eq_some.mpr ⟨h₁, _, h₂, cstr_strcpy name⟩
  rcases List.eq_nil_or_concat l with rfl | ⟨l₀, ⟨p, u⟩, rfl⟩
  · -- the list was empty
    have hhead : s.psemList = 0 := Seg.nil_iff.mp h.seg
    refine ⟨_, _, { s with heap := h₄, psemList := new }, hs₃, hs₄, ?_, ?_, rfl, hfrees⟩
    · simp [SemState.link, hhead]
    · exact ⟨.cons (hfin _ hcnew hcbuf) (.nil 0), hblocks, hnodup⟩
  · -- `plast` is the last node
    simp only [List.concat_eq_append] at *
    obtain ⟨q, b, hq, hcp, hbp, hname⟩ := h.cells
    obtain ⟨hne, -, -⟩ := h.separate
    obtain ⟨e₁, e₂, e₃, e₄⟩ := hold (p, u) (by simp)
    have hcp₄ : h₄.cell p = some (.semName ⟨u.buf, u.sem, u.openCount, q⟩) :=
      (hcell p e₁ e₂).trans hcp
    obtain ⟨h₅, hs₅, hl₅, hfr₅, hc₅⟩ := exists_setNode (s := { s with heap := h₄ }) (a := p)
      (Heap.mem_live_of_cell hcp₄) ⟨u.buf, u.sem, u.openCount, new⟩
    dsimp only at hs₅ hl₅ hfr₅ hc₅
    refine ⟨_, _, { s with heap := h₅ }, hs₃, hs₄, ?_, ⟨?_, ?_, hnodup⟩, rfl, ?_⟩
    · have hnode : SemState.node { s with heap := h₄ } p
          = some ⟨u.buf, u.sem, u.openCount, q⟩ := node_eq_some.mpr hcp₄
      simp [SemState.link, h.ne_null, hnode, hs₅]
    · refine h.seg.snoc ?_ (hfin _ ?_ ?_) fun x hx => ?_
      · refine pointsTo_eq_some.mpr ⟨by simp [hc₅], b, ?_, hname⟩
        simp only [hc₅, Function.update_of_ne (Ne.symm hne)]
        exact (hcell _ e₃ e₄).trans hbp
      · simp only [hc₅, Function.update_of_ne (Ne.symm e₂)]
        exact hcnew
      · simp only [hc₅, Function.update_of_ne (Ne.symm e₁)]
        exact hcbuf
      · obtain ⟨d₁, d₂, d₃, d₄⟩ := hold x (by simp [hx])
        obtain ⟨d₅, -, d₆, -⟩ := h.ne_of_mem (x := x) (by simpa using hx)
        refine h.agree (x := x) (by simp [hx]) ?_ ?_
        · simp only [hc₅, Function.update_of_ne d₅]; exact hcell _ d₁ d₂
        · simp only [hc₅, Function.update_of_ne d₆]; exact hcell _ d₃ d₄
    · intro d
      show d ∈ h₅.live ↔ _
      rw [hl₅]
      exact hblocks d
    · show h₅.frees = _
      rw [hfr₅, hfrees]

end Ecos.Posix
