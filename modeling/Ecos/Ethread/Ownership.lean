import Ecos.Ethread.ThreadData
import Ecos.Lib.Run

namespace Ecos.Ethread

open Ecos.Lib

/-!
# Who owns the per-thread tables

`setspecific` allocates a table for the calling thread and puts it in a free slot of
`thread_table`; `ethread_exit` frees it and empties the slot, but leaves the slot's number in
the kernel's data about the thread.

* `tsdSystem`, `TableOwnership` — the layer as a transition system, and what its users expect;
* `stale_index` — a thread whose table was freed can reach another thread's table;
* `OwnInv` — the invariant of slots, tables and threads, with its step lemma `OwnInv.step`;
* `TsdState.ExitPending` — the owner of a live table still has an `ethread_exit` to come;
* `table_ownership` — what its users expect holds as long as no thread goes back to a slot
  that was taken by another thread after its own table was freed.
-/

/-- The layer as a transition system: any thread may take a step at any time, and a step that is
    not defined is not taken. -/
def tsdSystem (cfg : EthreadConfig) :
    LTS TsdState ((Thread × TsdEvent) × TsdOut) :=
  .ofFun (.init cfg) (stepTsd cfg)

/-- `ethread_key_create` plants a `NULL` in the tables of all threads, the one access to other
    threads' tables that is meant. -/
def TsdEvent.plants : TsdEvent → Bool
  | .keyCreate .. => true
  | _ => false

/-- Can thread `t` come to do this?  Keys are below `ETHREAD_KEYS_MAX`, and the layer is
    initialised by the first `ethread_key_create`. -/
def TsdEvent.enabled (cfg : EthreadConfig) (s : TsdState) (t : Thread) : TsdEvent → Bool
  | .keyCreate _ n => (s.pc t).mayCall && n ≤ cfg.dataMax
  | .keyDelete k => (s.pc t).mayCall && k / 32 < s.threadKey.length
  | .setspecific k _ _ _ | .getspecific k =>
    (s.pc t).mayCall && k < cfg.keysMax && s.dataIndex ≤ cfg.dataMax
  | .exitStart => s.pc t = .outside && s.registered t ≠ 0 && s.dataIndex ≤ cfg.dataMax
  | .exitNext => match s.pc t with
    | .scan _ | .release _ => true
    | _ => false
  | .destructorReturn => match s.pc t with
    | .inDestructor _ => true
    | _ => false

/-- The steps after which `ethread_exit` can be over: the last one, or the first where there is
    no table. -/
def TsdEvent.exits : TsdEvent → Bool
  | .exitStart | .exitNext => true
  | _ => false

/-- Every table that the thread was ever given has been freed, as often as it was allocated. -/
def TsdState.AllFreed (s : TsdState) (t : Thread) : Prop :=
  ∀ a, s.freed.count (a, t) = s.allocated.count (a, t)

/-- What is expected of the tables after the steps `as`: nobody touches another thread's table, and
    every table is given back once, by its owner's `ethread_exit`. -/
structure TableOwnership (cfg : EthreadConfig) (as : List ((Thread × TsdEvent) × TsdOut))
    (s : TsdState) : Prop where
  /-- `setspecific`, `getspecific` and `ethread_exit` touch the thread's own table only. -/
  own : ∀ b ∈ as, b.1.2.plants = false → ∀ x ∈ b.2.touched, x.2 = b.1.1
  /-- A table is live, or was freed exactly once, by the thread it was allocated for. -/
  once : ∀ x, s.allocated.count x
    = s.freed.count x + if x.1 ∈ s.heap.live ∧ s.owner x.1 = x.2 then 1 else 0
  /-- When an `ethread_exit` of a thread has come to its end, its tables are freed. -/
  returned : ∀ b, as.getLast? = some b → b.1.2.exits = true → s.pc b.1.1 = .outside →
    s.AllFreed b.1.1
  /-- So are those of a thread for which the kernel has no `ethread_exit` left to call. -/
  finished : ∀ t, s.registered t = 0 → s.pc t = .outside → s.AllFreed t
  /-- A thread whose `ethread_exit` has freed a table has no other. -/
  exited : ∀ t, s.released t ≠ none → ∀ a ∈ s.heap.live, s.owner a ≠ t
  /-- `thread_table[0]` stays `NULL`. -/
  slot0 : s.threadTable 0 = 0
  /-- No step that a thread can come to is undefined. -/
  defined : ∀ t e, e.enabled cfg s t = true → ∃ out s', stepTsd cfg s (t, e) = some (out, s')

/-- Does the event use the slot number that the kernel keeps for the thread? A call on a free key
    returns before it asks for it. -/
def TsdEvent.usesIndex (cfg : EthreadConfig) (s : TsdState) : TsdEvent → Bool
  | .setspecific key _ _ _ | .getspecific key => !s.keyFree cfg key
  | .exitStart => true
  | _ => false

/-- A thread does not go back to the slot its table was in, after `ethread_exit` has freed the
    table, while the slot is taken. -/
def NotStale (cfg : EthreadConfig) (s : TsdState)
    (b : (Thread × TsdEvent) × TsdOut) : Prop :=
  b.1.2.usesIndex cfg s = true → ∀ i, s.released b.1.1 = some i → s.threadTable i = 0

instance (cfg : EthreadConfig) (s : TsdState) (b : (Thread × TsdEvent) × TsdOut) :
    Decidable (NotStale cfg s b) :=
  decidable_of_iff (b.1.2.usesIndex cfg s = true →
      (s.released b.1.1).all (fun i => s.threadTable i = 0) = true) <| by
    unfold NotStale
    cases s.released b.1.1 <;> simp

variable {cfg : EthreadConfig} {s s' : TsdState} {t u : Thread} {out : TsdOut} {a : Addr}

/-! ### The invariant -/

/-- The frame of a thread that is in `ethread_exit`, wherever in it. -/
def ExitPc.frame? : ExitPc → Option ExitFrame
  | .outside => none
  | .scan f | .inDestructor f | .release f => some f

/-- The frame is about the thread's own table, in its slot: what `ethread_exit` found at its start
    is still so. -/
structure FrameOk (s : TsdState) (t : Thread) (f : ExitFrame) : Prop where
  released : s.released t = none
  index : s.threadData t = f.tableIndex
  slot : s.threadTable f.tableIndex = f.threadData
  ne_null : f.threadData ≠ 0

/-- The invariant: slots, live tables and their owners match, and a thread's data word leads to its
    own table or to none. -/
structure OwnInv (cfg : EthreadConfig) (s : TsdState) : Prop where
  slot0 : s.threadTable 0 = 0
  range : ∀ i, s.threadTable i ≠ 0 → i < cfg.threadsMax
  /-- The live tables are those in slots. -/
  live : ∀ a, a ∈ s.heap.live ↔ a ≠ 0 ∧ ∃ i, s.threadTable i = a
  /-- A table is in the slot whose number its owner has. -/
  home : ∀ i, s.threadTable i ≠ 0 → s.threadData (s.owner (s.threadTable i)) = i ∧
    s.released (s.owner (s.threadTable i)) = none
  /-- A thread that was given a slot and has not freed its table owns the table in the slot. -/
  mine : ∀ t, s.released t = none → s.threadData t ≠ 0 →
    s.threadTable (s.threadData t) ≠ 0 ∧ s.owner (s.threadTable (s.threadData t)) = t
  gone : ∀ t i, s.released t = some i → s.threadData t = i
  frame : ∀ t f, (s.pc t).frame? = some f → FrameOk s t f
  once : ∀ x, s.allocated.count x
    = s.freed.count x + if x.1 ∈ s.heap.live ∧ s.owner x.1 = x.2 then 1 else 0

/-- Initially nobody owns a table, and all slots are empty. -/
theorem ownInv_init (cfg : EthreadConfig) : OwnInv cfg (.init cfg) := by
  refine ⟨rfl, fun i hi => absurd rfl hi, fun a => ?_, fun i hi => absurd rfl hi,
    fun t _ hne => absurd rfl hne, fun t i hi => ?_, fun t f hf => ?_, fun x => ?_⟩
  · simp [TsdState.init, Heap.empty, eq_comm]
  · simp [TsdState.init] at hi
  · simp [TsdState.init, ExitPc.frame?] at hf
  · simp [TsdState.init, Heap.empty]

/-- A table is in one slot, so that freeing it empties the only one. -/
theorem OwnInv.slot_unique (h : OwnInv cfg s) {i j : Nat} (hi : s.threadTable i ≠ 0)
    (hij : s.threadTable i = s.threadTable j) : i = j := by
  have hj : s.threadTable j ≠ 0 := hij ▸ hi
  rw [← (h.home i hi).1, hij, (h.home j hj).1]

/-- A table in a slot is live, so that reading through the slot is defined. -/
theorem OwnInv.live_slot (h : OwnInv cfg s) {i : Nat} (hi : s.threadTable i ≠ 0) :
    s.threadTable i ∈ s.heap.live := (h.live _).mpr ⟨hi, i, rfl⟩

/-- A thread that has freed its table owns no other: its slot may be another thread's by now. -/
theorem OwnInv.exited (h : OwnInv cfg s) (ht : s.released t ≠ none) (ha : a ∈ s.heap.live) :
    s.owner a ≠ t := by
  obtain ⟨hne, i, rfl⟩ := (h.live a).mp ha
  rintro rfl
  exact ht (h.home i hne).2

/-- **The thread's own table.**  What a thread finds in its slot is its own, when it has not
    freed its table or the slot is not taken. -/
theorem OwnInv.own_index (h : OwnInv cfg s)
    (hstale : ∀ i, s.released t = some i → s.threadTable i = 0)
    (htab : s.threadTable (s.threadData t) ≠ 0) :
    s.released t = none ∧ s.owner (s.threadTable (s.threadData t)) = t := by
  cases hrel : s.released t with
  | some i =>
    rw [h.gone t i hrel, hstale i hrel] at htab
    exact absurd rfl htab
  | none =>
    have hidx : s.threadData t ≠ 0 := by
      intro h0
      rw [h0, h.slot0] at htab
      exact htab rfl
    exact ⟨rfl, (h.mine t hrel hidx).2⟩

/-- The tables, their slots and their owners are as they were; keys, destructors and contents may
    differ. -/
structure SameTables (s s' : TsdState) : Prop where
  threadTable : s'.threadTable = s.threadTable
  live : s'.heap.live = s.heap.live
  threadData : s'.threadData = s.threadData
  owner : s'.owner = s.owner
  allocated : s'.allocated = s.allocated
  freed : s'.freed = s.freed
  released : s'.released = s.released

/-- A state has the tables that it has, for the steps that only return. -/
theorem SameTables.refl (s : TsdState) : SameTables s s := ⟨rfl, rfl, rfl, rfl, rfl, rfl, rfl⟩

/-- The invariant is about the tables, their slots and owners, and the frames; a step that leaves
    these alone keeps it. -/
theorem OwnInv.of_same (h : OwnInv cfg s) (hsame : SameTables s s')
    (hframe : ∀ t f, (s'.pc t).frame? = some f → FrameOk s t f) : OwnInv cfg s' := by
  obtain ⟨htab, hlive, hdata, hown, halloc, hfreed, hrel⟩ := hsame
  refine ⟨?_, ?_, ?_, ?_, ?_, ?_, fun t f hf => ?_, ?_⟩
  · rw [htab]; exact h.slot0
  · rw [htab]; exact h.range
  · rw [htab, hlive]; exact h.live
  · rw [htab, hdata, hown, hrel]; exact h.home
  · rw [htab, hdata, hown, hrel]; exact h.mine
  · rw [hdata, hrel]; exact h.gone
  · obtain ⟨h₁, h₂, h₃, h₄⟩ := hframe t f hf
    exact ⟨by rw [hrel]; exact h₁, by rw [hdata]; exact h₂, by rw [htab]; exact h₃, h₄⟩
  · rw [hlive, hown, halloc, hfreed]; exact h.once

/-- The thread that went on is where it went. -/
@[simp] theorem goto_frame_self (s : TsdState) (t : Thread) (pc : ExitPc) :
    (s.goto t pc).pc t = pc := by simp [TsdState.goto]

/-- A thread that moves on in `ethread_exit` keeps the invariant when its frame is about its own
    table. -/
theorem OwnInv.goto (h : OwnInv cfg s) {pc : ExitPc}
    (hframe : ∀ f, pc.frame? = some f → FrameOk s t f) : OwnInv cfg (s.goto t pc) := by
  refine h.of_same ⟨rfl, rfl, rfl, rfl, rfl, rfl, rfl⟩ fun u f hf => ?_
  by_cases hne : u = t
  · subst hne
    rw [goto_frame_self] at hf
    exact hframe f hf
  · have hpc : (s.goto t pc).pc u = s.pc u := by simp [TsdState.goto, Function.update_of_ne hne]
    rw [hpc] at hf
    exact h.frame u f hf

/-! ### What the steps do to the tables -/

/-- Writing an entry of a table changes that table only, and is defined only where the entry
    exists. -/
theorem storeEntry_spec {key : Nat} {p : Ptr} (hs : s.storeEntry cfg a key p = some s') :
    ∃ h' d, s' = { s with heap := h' } ∧ h'.live = s.heap.live ∧ key < cfg.keysMax ∧
      s.heap.cell a = some d ∧
      h'.cell = Function.update s.heap.cell a (some (Function.update d key p)) := by
  unfold TsdState.storeEntry at hs
  split at hs
  · obtain ⟨d, hd, hs⟩ := Option.bind_eq_some_iff.mp hs
    obtain ⟨h', hstore, hs⟩ := Option.bind_eq_some_iff.mp hs
    obtain ⟨-, hl, -, hc⟩ := Heap.store_eq_some.mp hstore
    exact ⟨h', d, (Option.some.inj hs).symm, hl, ‹_›, hd, hc⟩
  · cases hs

/-- A write to a table changes no table but its contents, as long as the same blocks are live. -/
theorem sameTables_heap {h' : Heap (Nat → Ptr)} (hl : h'.live = s.heap.live) :
    SameTables s { s with heap := h' } := ⟨rfl, hl, rfl, rfl, rfl, rfl, rfl⟩

/-- The tables in which the key is planted: those in the slots passed, by induction on the slots. -/
theorem plant_fold {k : Nat} {tab : Nat → Addr} {L : List Nat} {h h' : Heap (Nat → Ptr)}
    (hs : L.foldlM (fun h i => if tab i = 0 then some h
      else do
        let d ← h.load (tab i)
        h.store (tab i) (Function.update d k 0)) h = some h') :
    h'.live = h.live ∧ ∀ a, h'.cell a = if a ≠ 0 ∧ ∃ i ∈ L, tab i = a then
      (h.cell a).map fun d => Function.update d k 0 else h.cell a := by
  induction L generalizing h with
  | nil =>
    obtain rfl : h = h' := by simpa using hs
    simp
  | cons i L ih =>
    obtain ⟨h₁, hstep, hrest⟩ := Option.bind_eq_some_iff.mp hs
    obtain ⟨hl, hc⟩ := ih hrest
    dsimp only at hstep
    split at hstep
    · -- the slot is empty
      rename_i hi
      obtain rfl := Option.some.inj hstep
      refine ⟨hl, fun a => ?_⟩
      rw [hc a]
      have hiff : (a ≠ 0 ∧ ∃ j ∈ L, tab j = a) ↔ a ≠ 0 ∧ ∃ j ∈ i :: L, tab j = a := by
        refine and_congr_right fun ha => ?_
        have hne : tab i ≠ a := by rw [hi]; exact Ne.symm ha
        simp [hne]
      simp only [hiff]
    · -- the entry of this table is written; the table may come again later
      rename_i hi
      obtain ⟨d, hd, hstore⟩ := Option.bind_eq_some_iff.mp hstep
      obtain ⟨-, hl₁, -, hc₁⟩ := Heap.store_eq_some.mp hstore
      refine ⟨hl.trans hl₁, fun a => ?_⟩
      rw [hc a, hc₁]
      by_cases ha : a = tab i
      · subst ha
        have hd' : h.cell (tab i) = some d := hd
        have hmem : ∃ j ∈ i :: L, tab j = tab i := ⟨i, by simp, rfl⟩
        rw [Function.update_self, hd', Option.map_some, Option.map_some, Function.update_idem,
          ite_self, if_pos ⟨hi, hmem⟩]
      · rw [Function.update_of_ne ha]
        have hiff : (a ≠ 0 ∧ ∃ j ∈ L, tab j = a) ↔ a ≠ 0 ∧ ∃ j ∈ i :: L, tab j = a := by
          simp [Ne.symm ha]
        simp only [hiff]

/-- **Planting.**  The key's entry becomes `NULL` in every table, since every live table is in a
    slot. -/
theorem OwnInv.plant_spec (h : OwnInv cfg s) {k : Nat} {h' : Heap (Nat → Ptr)}
    (hs : s.plant cfg k = some h') : h'.live = s.heap.live ∧
      ∀ a, h'.cell a = (s.heap.cell a).map fun d => Function.update d k 0 := by
  obtain ⟨hl, hc⟩ := plant_fold hs
  refine ⟨hl, fun a => ?_⟩
  rw [hc a]
  split
  · rfl
  · rename_i hnot
    cases hcell : s.heap.cell a with
    | none => rfl
    | some d =>
      exfalso
      obtain ⟨ha, i, hi⟩ := (h.live a).mp (Heap.mem_live_of_cell hcell)
      refine hnot ⟨ha, i, ?_, hi⟩
      have hi0 : i ≠ 0 := by
        rintro rfl
        exact ha (hi.symm.trans h.slot0)
      have hlt := h.range i (hi ▸ ha)
      simp only [TsdState.slots, List.mem_range'_1]
      omega

/-- The map of free keys that `key_create` works on: a new one at the first call. -/
def TsdState.keyMap (cfg : EthreadConfig) (s : TsdState) : FreeMap 32 :=
  if cfg.dataMax < s.dataIndex then FreeMap.full 32 (cfg.keysMax / 32) else s.threadKey

/-- The exits of the calls and the steps of `ethread_exit`, as far as the tables are
    concerned. -/
inductive TsdStep (cfg : EthreadConfig) (s : TsdState) (t : Thread) :
    TsdEvent → TsdOut → TsdState → Prop
  | keyNone {d n i} (hi : i ≤ cfg.dataMax) (hkey : (s.keyMap cfg).alloc = none) :
      TsdStep cfg s t (.keyCreate d n) ⟨.int (some .EAGAIN), []⟩
        { s with dataIndex := i, threadKey := s.keyMap cfg }
  | keyNew {d n i k m dtor h' touched} (hi : i ≤ cfg.dataMax)
      (hkey : (s.keyMap cfg).alloc = some (k, m)) (hlive : h'.live = s.heap.live)
      (hcell : ∀ a, h'.cell a = (s.heap.cell a).map fun d => Function.update d k 0) :
      TsdStep cfg s t (.keyCreate d n) ⟨.key k, touched⟩
        { s with dataIndex := i, threadKey := m, keyDestructor := dtor, heap := h' }
  | keyDelete {k} (hk : k / 32 < s.threadKey.length) :
      TsdStep cfg s t (.keyDelete k) ⟨.int none, []⟩
        { s with threadKey := s.threadKey.release k }
  | setFree {k p added answer} (hfree : s.keyFree cfg k = true) :
      TsdStep cfg s t (.setspecific k p added answer) ⟨.int (some .EINVAL), []⟩ s
  | setFail {k p added answer err r} (hreg : s.registered ≤ r) :
      TsdStep cfg s t (.setspecific k p added answer) ⟨.int (some err), []⟩
        { s with registered := r }
  | setOwn {k p added answer d h'} (hfree : s.keyFree cfg k = false)
      (htab : s.threadTable (s.threadData t) ≠ 0) (hlive : h'.live = s.heap.live)
      (hd : s.heap.cell (s.threadTable (s.threadData t)) = some d)
      (hcell : h'.cell = Function.update s.heap.cell (s.threadTable (s.threadData t))
        (some (Function.update d k p))) :
      TsdStep cfg s t (.setspecific k p added answer)
        ⟨.int none, [s.owned (s.threadTable (s.threadData t))]⟩ { s with heap := h' }
  | setNew {k p added answer i h' r} (hfree : s.keyFree cfg k = false)
      (htab : s.threadTable (s.threadData t) = 0) (hi : i ∈ TsdState.slots cfg)
      (hslot : s.threadTable i = 0) (hanswer : answer ≠ 0 ∧ answer ∉ s.heap.live)
      (hlive : h'.live = insert answer s.heap.live)
      (hcell : h'.cell = Function.update s.heap.cell answer
        (some (Function.update (fun _ => 0) k p)))
      (hreg : s.registered ≤ r ∧ r t ≠ 0) :
      TsdStep cfg s t (.setspecific k p added answer) ⟨.int none, [(answer, t)]⟩
        { s with
          heap := h'
          registered := r
          threadTable := Function.update s.threadTable i answer
          threadData := Function.update s.threadData t i
          owner := Function.update s.owner answer t
          allocated := s.allocated ++ [(answer, t)]
          released := Function.update s.released t none }
  | getFree {k} (hfree : s.keyFree cfg k = true) :
      TsdStep cfg s t (.getspecific k) ⟨.ptr 0, []⟩ s
  | getNone {k} (hfree : s.keyFree cfg k = false)
      (htab : s.threadTable (s.threadData t) = 0) :
      TsdStep cfg s t (.getspecific k) ⟨.ptr 0, []⟩ s
  | getOwn {k d} (hfree : s.keyFree cfg k = false)
      (htab : s.threadTable (s.threadData t) ≠ 0)
      (hd : s.heap.cell (s.threadTable (s.threadData t)) = some d) :
      TsdStep cfg s t (.getspecific k)
        ⟨.ptr (d k), [s.owned (s.threadTable (s.threadData t))]⟩ s
  | exitNone {r} (hpc : s.pc t = .outside) (htab : s.threadTable (s.threadData t) = 0)
      (hreg : ∀ u ≠ t, r u = s.registered u) :
      TsdStep cfg s t .exitStart ⟨.none, []⟩ { s with registered := r }
  | exitScan {r} (hpc : s.pc t = .outside) (htab : s.threadTable (s.threadData t) ≠ 0)
      (hreg : ∀ u ≠ t, r u = s.registered u) :
      TsdStep cfg s t .exitStart ⟨.none, []⟩
        ({ s with registered := r }.goto t
          (.scan ⟨s.threadData t, s.threadTable (s.threadData t), 0, false, 0⟩))
  | move {e f f' pc touched} (he : e = .exitNext ∨ e = .destructorReturn)
      (hpc : (s.pc t).frame? = some f) (hpc' : pc.frame? = some f')
      (hindex : f'.tableIndex = f.tableIndex) (hdata : f'.threadData = f.threadData)
      (htouched : ∀ x ∈ touched, x = s.owned f.threadData) :
      TsdStep cfg s t e ⟨.none, touched⟩ (s.goto t pc)
  | runDestructor {f d h'} (hpc : s.pc t = .scan f) (hlive : h'.live = s.heap.live)
      (hd : s.heap.cell f.threadData = some d)
      (hcell : h'.cell = Function.update s.heap.cell f.threadData
        (some (Function.update d f.key 0))) :
      TsdStep cfg s t .exitNext ⟨.none, [s.owned f.threadData]⟩
        ({ s with heap := h' }.goto t (.inDestructor f))
  | releaseNone {f} (hpc : s.pc t = .release f) (htab : s.threadTable f.tableIndex = 0) :
      TsdStep cfg s t .exitNext ⟨.none, []⟩ (s.goto t .outside)
  | release {f h'} (hpc : s.pc t = .release f) (htab : s.threadTable f.tableIndex ≠ 0)
      (hlive : h'.live = s.heap.live.erase (s.threadTable f.tableIndex))
      (hcell : h'.cell = Function.update s.heap.cell (s.threadTable f.tableIndex) none) :
      TsdStep cfg s t .exitNext ⟨.none, [s.owned (s.threadTable f.tableIndex)]⟩
        { s.goto t .outside with
          heap := h'
          threadTable := Function.update s.threadTable f.tableIndex 0
          freed := s.freed ++ [(s.threadTable f.tableIndex, t)]
          released := Function.update s.released t (some f.tableIndex) }

/-- The slot that `get_data` finds is the one of the thread, once a data index was assigned. -/
theorem getData_eq {i : Nat} (h : s.getData cfg t = some i) : i = s.threadData t := by
  unfold TsdState.getData at h
  split at h
  · exact (Option.some.inj h).symm
  · cases h

/-- After the first time initialization the index is in range, and the map is the one that
    `key_create` works on. -/
theorem initKeys_spec {n : Nat} {s₁ : TsdState} (hs : initKeys cfg s n = some s₁) :
    ∃ i ≤ cfg.dataMax, s₁ = { s with dataIndex := i, threadKey := s.keyMap cfg } := by
  unfold initKeys at hs
  unfold TsdState.keyMap
  split at hs
  · rename_i hinit
    split at hs
    · exact ⟨n, ‹_›, by rw [if_pos hinit]; exact (Option.some.inj hs).symm⟩
    · cases hs
  · rename_i hinit
    exact ⟨s.dataIndex, by omega, by rw [if_neg hinit]; exact (Option.some.inj hs).symm⟩

/-- The exits of `ethread_key_create`: full, or a new key with its `NULL`s planted. -/
theorem keyCreate_cases (h : OwnInv cfg s) {d n : Nat}
    (hs : keyCreate cfg s d n = some (out, s')) : TsdStep cfg s t (.keyCreate d n) out s' := by
  obtain ⟨s₁, hs₁, hs⟩ := Option.bind_eq_some_iff.mp hs
  obtain ⟨i, hi, rfl⟩ := initKeys_spec hs₁
  cases halloc : (s.keyMap cfg).alloc with
  | none =>
    simp only [halloc] at hs
    obtain ⟨rfl, rfl⟩ := Prod.mk.inj (Option.some.inj hs)
    exact .keyNone hi halloc
  | some km =>
    obtain ⟨k, m⟩ := km
    simp only [halloc] at hs
    obtain ⟨h', hplant, hs⟩ := Option.bind_eq_some_iff.mp hs
    obtain ⟨rfl, rfl⟩ := Prod.mk.inj (Option.some.inj hs)
    obtain ⟨hl, hc⟩ := h.plant_spec hplant
    exact .keyNew hi halloc hl hc

/-- What giving the thread a table does: an error that changes no table, or the new table in a free
    slot. -/
theorem newTable_cases {added : Bool} {answer : Addr} {x : Except EthreadError Addr}
    (hs : newTable cfg s t added answer = some (x, s')) :
    (∃ err r, x = .error err ∧ s.registered ≤ r ∧ s' = { s with registered := r }) ∨
      ∃ i h' r, x = .ok answer ∧ i ∈ TsdState.slots cfg ∧ s.threadTable i = 0 ∧
        (answer ≠ 0 ∧ answer ∉ s.heap.live) ∧ h'.live = insert answer s.heap.live ∧
        h'.cell = Function.update s.heap.cell answer (some fun _ => 0) ∧
        (s.registered ≤ r ∧ r t ≠ 0) ∧
        s' = { s with
          heap := h'
          registered := r
          threadTable := Function.update s.threadTable i answer
          threadData := Function.update s.threadData t i
          owner := Function.update s.owner answer t
          allocated := s.allocated ++ [(answer, t)]
          released := Function.update s.released t none } := by
  unfold newTable at hs
  split at hs
  · -- no slot is free
    obtain ⟨rfl, rfl⟩ := Prod.mk.inj (Option.some.inj hs)
    exact Or.inl ⟨_, s.registered, rfl, le_rfl, rfl⟩
  rename_i i hfind
  split at hs
  · -- the exit function cannot be registered
    obtain ⟨rfl, rfl⟩ := Prod.mk.inj (Option.some.inj hs)
    exact Or.inl ⟨_, s.registered, rfl, le_rfl, rfl⟩
  -- from here on `ethread_exit` is registered once more
  have hreg : s.registered ≤ Function.update s.registered t (s.registered t + 1) := by
    intro u
    by_cases hut : u = t
    · simp [hut]
    · simp [Function.update_of_ne hut]
  dsimp only at hs
  split at hs
  · -- there is no memory
    obtain ⟨rfl, rfl⟩ := Prod.mk.inj (Option.some.inj hs)
    exact Or.inl ⟨_, _, rfl, hreg, rfl⟩
  -- the new table is cleared and put into the slot
  rename_i h₁ hmalloc
  obtain ⟨h', hstore, hs⟩ := Option.bind_eq_some_iff.mp hs
  obtain ⟨rfl, rfl⟩ := Prod.mk.inj (Option.some.inj hs)
  obtain ⟨h0, hfresh, hl₁, -, hc₁⟩ := Heap.malloc_eq_some.mp hmalloc
  obtain ⟨-, hl, -, hc⟩ := Heap.store_eq_some.mp hstore
  have hslot : s.threadTable i = 0 := by simpa using List.find?_some hfind
  refine Or.inr ⟨i, h', _, rfl, List.mem_of_find?_eq_some hfind, hslot, ⟨h0, hfresh⟩,
    hl.trans hl₁, ?_, ⟨hreg, by simp⟩, rfl⟩
  rw [hc, hc₁, Function.update_idem]

/-- The exits of `ethread_setspecific`: an error, a write to the thread's table, or a write to a
    new one. -/
theorem setspecific_cases {k : Nat} {p : Ptr} {added : Bool} {answer : Addr}
    (hs : setspecific cfg s t k p added answer = some (out, s')) :
    TsdStep cfg s t (.setspecific k p added answer) out s' := by
  unfold setspecific at hs
  split at hs
  · obtain ⟨rfl, rfl⟩ := Prod.mk.inj (Option.some.inj hs)
    exact .setFree ‹_›
  rename_i hfree
  replace hfree : s.keyFree cfg k = false := by simpa using hfree
  obtain ⟨⟨x, s₁⟩, htable, hs⟩ := Option.bind_eq_some_iff.mp hs
  obtain ⟨i, hi, htable⟩ := Option.bind_eq_some_iff.mp htable
  obtain rfl := getData_eq hi
  dsimp only at htable
  split at htable
  · -- the thread has no table yet
    rename_i htab
    rcases newTable_cases htable with
      ⟨err, r, rfl, hreg, rfl⟩ | ⟨i, h₁, r, rfl, hi, hslot, hanswer, hl₁, hc₁, hreg, rfl⟩
    · obtain ⟨rfl, rfl⟩ := Prod.mk.inj (Option.some.inj hs)
      exact .setFail hreg
    · obtain ⟨s₂, hstore, hs⟩ := Option.bind_eq_some_iff.mp hs
      obtain ⟨rfl, rfl⟩ := Prod.mk.inj (Option.some.inj hs)
      obtain ⟨h', d, rfl, hl, -, hd, hc⟩ := storeEntry_spec hstore
      obtain rfl : (fun _ => 0) = d := by simpa [hc₁] using hd
      have hout : ∀ s₂ : TsdState, s₂.owner = Function.update s.owner answer t →
          s₂.owned answer = (answer, t) := by
        intro s₂ howner
        simp [TsdState.owned, howner]
      rw [hout _ rfl]
      refine .setNew hfree htab hi hslot hanswer (hl.trans hl₁) ?_ hreg
      rw [hc]
      show Function.update h₁.cell answer _ = _
      rw [hc₁, Function.update_idem]
  · -- the thread has a table
    rename_i htab
    obtain ⟨rfl, rfl⟩ := Prod.mk.inj (Option.some.inj htable)
    obtain ⟨s₂, hstore, hs⟩ := Option.bind_eq_some_iff.mp hs
    obtain ⟨rfl, rfl⟩ := Prod.mk.inj (Option.some.inj hs)
    obtain ⟨h', d, rfl, hl, -, hd, hc⟩ := storeEntry_spec hstore
    exact .setOwn hfree htab hl hd hc

/-- The exits of `ethread_getspecific`, none of which changes the state. -/
theorem getspecific_cases {k : Nat} (hs : getspecific cfg s t k = some (out, s')) :
    TsdStep cfg s t (.getspecific k) out s' := by
  unfold getspecific at hs
  split at hs
  · obtain ⟨rfl, rfl⟩ := Prod.mk.inj (Option.some.inj hs)
    exact .getFree ‹_›
  rename_i hfree
  replace hfree : s.keyFree cfg k = false := by simpa using hfree
  obtain ⟨i, hi, hs⟩ := Option.bind_eq_some_iff.mp hs
  obtain rfl := getData_eq hi
  dsimp only at hs
  split at hs
  · obtain ⟨rfl, rfl⟩ := Prod.mk.inj (Option.some.inj hs)
    exact .getNone hfree ‹_›
  · rename_i htab
    obtain ⟨val, hload, hs⟩ := Option.bind_eq_some_iff.mp hs
    obtain ⟨rfl, rfl⟩ := Prod.mk.inj (Option.some.inj hs)
    unfold TsdState.loadEntry at hload
    split at hload
    · obtain ⟨d, hd, rfl⟩ := Option.map_eq_some_iff.mp hload
      exact .getOwn hfree htab hd
    · cases hload

/-- The exits of the start of `ethread_exit`: it returns without a table, or begins to scan its
    keys. -/
theorem exitStart_cases (hpc : s.pc t = .outside) (hs : exitStart cfg s t = some (out, s')) :
    TsdStep cfg s t .exitStart out s' := by
  unfold exitStart at hs
  split at hs
  · cases hs
  obtain ⟨i, hi, hs⟩ := Option.bind_eq_some_iff.mp hs
  obtain rfl := getData_eq hi
  -- the kernel takes one registration of this thread
  have hreg : ∀ u ≠ t, Function.update s.registered t (s.registered t - 1) u = s.registered u :=
    fun u hut => Function.update_of_ne hut _ _
  dsimp only at hs
  split at hs
  · rename_i htab
    obtain ⟨rfl, rfl⟩ := Prod.mk.inj (Option.some.inj hs)
    exact .exitScan hpc htab hreg
  · rename_i htab
    obtain ⟨rfl, rfl⟩ := Prod.mk.inj (Option.some.inj hs)
    exact .exitNone hpc (by simpa using htab) hreg

/-- What looking at a key does: pass on, call its destructor, begin another pass, or go on to free
    the table. -/
theorem scanKey_cases {f : ExitFrame} (hpc : s.pc t = .scan f)
    (hs : scanKey cfg s t f = some (out, s')) : TsdStep cfg s t .exitNext out s' := by
  have hframe : (s.pc t).frame? = some f := by rw [hpc]; rfl
  unfold scanKey at hs
  dsimp only at hs
  split at hs
  · split at hs
    · obtain ⟨rfl, rfl⟩ := Prod.mk.inj (Option.some.inj hs)
      exact .move (Or.inl rfl) hframe rfl rfl rfl (by simp)
    split at hs
    · obtain ⟨rfl, rfl⟩ := Prod.mk.inj (Option.some.inj hs)
      exact .move (Or.inl rfl) hframe rfl rfl rfl (by simp)
    obtain ⟨value, hload, hs⟩ := Option.bind_eq_some_iff.mp hs
    split at hs
    · obtain ⟨rfl, rfl⟩ := Prod.mk.inj (Option.some.inj hs)
      exact .move (Or.inl rfl) hframe rfl rfl rfl (by simp)
    · obtain ⟨s₁, hstore, hs⟩ := Option.bind_eq_some_iff.mp hs
      obtain ⟨rfl, rfl⟩ := Prod.mk.inj (Option.some.inj hs)
      obtain ⟨h', d, rfl, hl, -, hd, hc⟩ := storeEntry_spec hstore
      exact .runDestructor hpc hl hd hc
  · split at hs
    · obtain ⟨rfl, rfl⟩ := Prod.mk.inj (Option.some.inj hs)
      exact .move (Or.inl rfl) hframe rfl rfl rfl (by simp)
    · obtain ⟨rfl, rfl⟩ := Prod.mk.inj (Option.some.inj hs)
      exact .move (Or.inl rfl) hframe rfl rfl rfl (by simp)

/-- What freeing the table does, also where the slot has become empty meanwhile. -/
theorem releaseTable_cases {f : ExitFrame} (hpc : s.pc t = .release f)
    (hs : releaseTable s t f = some (out, s')) : TsdStep cfg s t .exitNext out s' := by
  unfold releaseTable at hs
  dsimp only at hs
  split at hs
  · obtain ⟨rfl, rfl⟩ := Prod.mk.inj (Option.some.inj hs)
    exact .releaseNone hpc ‹_›
  · rename_i htab
    obtain ⟨h', hfree, hs⟩ := Option.bind_eq_some_iff.mp hs
    obtain ⟨rfl, rfl⟩ := Prod.mk.inj (Option.some.inj hs)
    obtain ⟨-, hl, -, hc⟩ := Heap.free_eq_some.mp hfree
    exact .release hpc htab hl hc

/-- Every step but `ethread_key_create` has one of the exits of `TsdStep`, whatever the state: the
    invariant is needed for the planting only. -/
theorem stepTsd_cases_of_ne {e : TsdEvent} (hne : e.plants = false)
    (hs : stepTsd cfg s (t, e) = some (out, s')) : TsdStep cfg s t e out s' := by
  unfold stepTsd at hs
  cases e with
  | keyCreate d n => cases hne
  | keyDelete k =>
    dsimp only at hs
    split at hs
    · unfold keyDelete at hs
      split at hs
      · obtain ⟨rfl, rfl⟩ := Prod.mk.inj (Option.some.inj hs)
        exact .keyDelete ‹_›
      · cases hs
    · cases hs
  | setspecific k p added answer =>
    dsimp only at hs
    split at hs
    · exact setspecific_cases hs
    · cases hs
  | getspecific k =>
    dsimp only at hs
    split at hs
    · exact getspecific_cases hs
    · cases hs
  | exitStart =>
    dsimp only at hs
    split at hs
    · exact exitStart_cases ‹_› hs
    · cases hs
  | exitNext =>
    dsimp only [exitNext] at hs
    split at hs
    · exact scanKey_cases ‹_› hs
    · exact releaseTable_cases ‹_› hs
    · cases hs
  | destructorReturn =>
    dsimp only [destructorReturn] at hs
    split at hs
    · rename_i f hpc
      -- the exit goes on with the next key
      have hframe : (s.pc t).frame? = some f := by rw [hpc]; rfl
      obtain ⟨rfl, rfl⟩ := Prod.mk.inj (Option.some.inj hs)
      exact .move (Or.inr rfl) hframe rfl rfl rfl (by simp)
    · cases hs

/-- **One step of one thread.**  Every step has one of the exits of `TsdStep`; the invariants are
    proved from these. -/
theorem stepTsd_cases (h : OwnInv cfg s) {e : TsdEvent}
    (hs : stepTsd cfg s (t, e) = some (out, s')) : TsdStep cfg s t e out s' := by
  cases hplants : e.plants with
  | false => exact stepTsd_cases_of_ne hplants hs
  | true =>
    cases e with
    | keyCreate d n =>
      unfold stepTsd at hs
      dsimp only at hs
      split at hs
      · exact keyCreate_cases h hs
      · cases hs
    | _ => cases hplants

/-! ### The step lemma -/

/-- A new table goes into a slot of its own, and the tables that are there belong to other
    threads. -/
theorem OwnInv.other_of_no_table (h : OwnInv cfg s)
    (htab : s.threadTable (s.threadData t) = 0) {j : Nat} (hj : s.threadTable j ≠ 0) :
    s.owner (s.threadTable j) ≠ t := by
  intro heq
  have hidx := (h.home j hj).1
  rw [heq] at hidx
  rw [hidx] at htab
  exact hj htab

section NewTable

variable {answer : Addr} {i : Nat}

/-- The taken slots are not the one that gets the new table, and hold other tables. -/
theorem OwnInv.taken_ne (h : OwnInv cfg s) (hslot : s.threadTable i = 0)
    (hfresh : answer ∉ s.heap.live) {j : Nat} (hj : s.threadTable j ≠ 0) :
    j ≠ i ∧ s.threadTable j ≠ answer :=
  ⟨fun hji => hj (hji ▸ hslot), fun heq => hfresh (heq ▸ h.live_slot hj)⟩

/-- With the new table in its slot, the live tables are those in slots, which is one field of the
    invariant. -/
theorem OwnInv.new_live (h : OwnInv cfg s) (hslot : s.threadTable i = 0) (h0 : answer ≠ 0)
    (hfresh : answer ∉ s.heap.live) (a : Addr) : a ∈ insert answer s.heap.live ↔
      a ≠ 0 ∧ ∃ j, Function.update s.threadTable i answer j = a := by
  rw [Finset.mem_insert]
  constructor
  · rintro (rfl | ha)
    · exact ⟨h0, i, by simp⟩
    · obtain ⟨hne, j, rfl⟩ := (h.live a).mp ha
      exact ⟨hne, j, by rw [Function.update_of_ne (h.taken_ne hslot hfresh hne).1]⟩
  · rintro ⟨hne, j, hj⟩
    by_cases hji : j = i
    · subst hji
      rw [Function.update_self] at hj
      exact Or.inl hj.symm
    · rw [Function.update_of_ne hji] at hj
      exact Or.inr ((h.live a).mpr ⟨hne, j, hj⟩)

/-- The new table adds one to what was allocated and to what is live, so that the account stays
    even. -/
theorem OwnInv.new_once (h : OwnInv cfg s) (hfresh : answer ∉ s.heap.live) (x : Addr × Thread) :
    (s.allocated ++ [(answer, t)]).count x = s.freed.count x +
      if x.1 ∈ insert answer s.heap.live ∧ Function.update s.owner answer t x.1 = x.2
        then 1 else 0 := by
  have hold := h.once x
  simp only [List.count_append, List.count_singleton, Finset.mem_insert]
  by_cases hx : x.1 = answer
  · obtain ⟨a, u⟩ := x
    obtain rfl : a = answer := hx
    rw [if_neg fun hc => hfresh hc.1] at hold
    rw [hold]
    simp
  · rw [hold]
    have hxne : ((answer, t) == x) = false := by
      simpa [Prod.ext_iff] using fun heq => absurd heq.symm hx
    simp [hx, hxne]

/-- Giving a thread without a table a new one in a free slot, whatever is then written to it. -/
theorem OwnInv.new (h : OwnInv cfg s) {h' : Heap (Nat → Ptr)} {r : Thread → Nat}
    (htab : s.threadTable (s.threadData t) = 0) (hi : i ∈ TsdState.slots cfg)
    (hslot : s.threadTable i = 0) (hanswer : answer ≠ 0 ∧ answer ∉ s.heap.live)
    (hlive : h'.live = insert answer s.heap.live) :
    OwnInv cfg { s with
      heap := h'
      registered := r
      threadTable := Function.update s.threadTable i answer
      threadData := Function.update s.threadData t i
      owner := Function.update s.owner answer t
      allocated := s.allocated ++ [(answer, t)]
      released := Function.update s.released t none } := by
  obtain ⟨h0, hfresh⟩ := hanswer
  obtain ⟨hpos, hlt⟩ : 1 ≤ i ∧ i < cfg.threadsMax := by
    simp only [TsdState.slots, List.mem_range'_1] at hi
    omega
  refine ⟨?_, fun j hj => ?_, fun a => ?_, fun j hj => ?_, fun u hu hne => ?_, fun u j hu => ?_,
    fun u f hf => ?_, fun x => ?_⟩
  · show Function.update s.threadTable i answer 0 = 0
    rw [Function.update_of_ne (by omega), h.slot0]
  · by_cases hji : j = i
    · exact hji ▸ hlt
    · refine h.range j ?_
      simpa [Function.update_of_ne hji] using hj
  · show a ∈ h'.live ↔ _
    rw [hlive]
    exact h.new_live hslot h0 hfresh a
  · -- the tables that were there keep their slots and owners
    by_cases hji : j = i
    · subst hji
      simp
    · simp only [Function.update_of_ne hji] at hj ⊢
      have hother := h.other_of_no_table htab hj
      rw [Function.update_of_ne (h.taken_ne hslot hfresh hj).2, Function.update_of_ne hother,
        Function.update_of_ne hother]
      exact h.home j hj
  · by_cases hut : u = t
    · subst hut
      simpa using h0
    · simp only [Function.update_of_ne hut] at hu hne ⊢
      obtain ⟨h₁, h₂⟩ := h.mine u hu hne
      obtain ⟨hji, htable⟩ := h.taken_ne hslot hfresh h₁
      rw [Function.update_of_ne hji, Function.update_of_ne htable]
      exact ⟨h₁, h₂⟩
  · by_cases hut : u = t
    · subst hut
      simp at hu
    · simp only [Function.update_of_ne hut] at hu ⊢
      exact h.gone u j hu
  · -- a thread that is in `ethread_exit` has a table, so it is another one
    obtain ⟨hrel, hidx, hsl, hne⟩ := h.frame u f hf
    have hut : u ≠ t := by
      rintro rfl
      rw [hidx, hsl] at htab
      exact hne htab
    refine ⟨?_, ?_, ?_, hne⟩
    · simpa [Function.update_of_ne hut] using hrel
    · simpa [Function.update_of_ne hut] using hidx
    · have hfi : f.tableIndex ≠ i := (h.taken_ne hslot hfresh (by rw [hsl]; exact hne)).1
      simpa [Function.update_of_ne hfi] using hsl
  · have hcount := h.new_once (t := t) hfresh x
    rw [← hlive] at hcount
    exact hcount

end NewTable

section Release

variable {f : ExitFrame}

/-- The table that `ethread_exit` frees is the thread's own: the slot still holds what its frame
    says. -/
theorem OwnInv.frame_owner (h : OwnInv cfg s) (hf : FrameOk s t f) :
    f.tableIndex ≠ 0 ∧ s.threadTable f.tableIndex ≠ 0 ∧
      s.owner (s.threadTable f.tableIndex) = t := by
  obtain ⟨hrel, hidx, hsl, hne⟩ := hf
  have hi0 : f.tableIndex ≠ 0 := by
    intro h0
    rw [h0, h.slot0] at hsl
    exact hne hsl.symm
  have hm := h.mine t hrel (by rw [hidx]; exact hi0)
  rw [hidx] at hm
  exact ⟨hi0, hm⟩

/-- The tables in other slots belong to other threads, so that a thread's exit leaves nothing of
    its own behind. -/
theorem OwnInv.owner_ne (h : OwnInv cfg s) (hf : FrameOk s t f) {j : Nat}
    (hj : s.threadTable j ≠ 0) (hji : j ≠ f.tableIndex) : s.owner (s.threadTable j) ≠ t := by
  intro heq
  have hj' := (h.home j hj).1
  rw [heq, hf.index] at hj'
  exact hji hj'.symm

/-- Another thread that has not freed its table is in another slot, so that emptying this one is
    not noticed by it. -/
theorem OwnInv.index_ne (h : OwnInv cfg s) (hf : FrameOk s t f) {u : Thread} (hut : u ≠ t)
    (hu : s.released u = none) : s.threadData u ≠ f.tableIndex := by
  obtain ⟨hi0, -, howner⟩ := h.frame_owner hf
  intro hui
  have hm := (h.mine u hu (by rw [hui]; exact hi0)).2
  rw [hui, howner] at hm
  exact hut hm.symm

/-- Without the freed table, the live tables are those in slots, which is one field of the
    invariant. -/
theorem OwnInv.release_live (h : OwnInv cfg s) {i : Nat} (a : Addr) :
    a ∈ s.heap.live.erase (s.threadTable i) ↔
      a ≠ 0 ∧ ∃ j, Function.update s.threadTable i 0 j = a := by
  rw [Finset.mem_erase, h.live a]
  constructor
  · rintro ⟨hai, ha, j, rfl⟩
    have hji : j ≠ i := fun hji => hai (by rw [hji])
    exact ⟨ha, j, by rw [Function.update_of_ne hji]⟩
  · rintro ⟨ha, j, hj⟩
    have hji : j ≠ i := by
      rintro rfl
      rw [Function.update_self] at hj
      exact ha hj.symm
    rw [Function.update_of_ne hji] at hj
    subst hj
    exact ⟨fun heq => hji (h.slot_unique ha heq), ha, j, rfl⟩

/-- The freed table adds one to what was freed, and is live no more, so that the account stays
    even. -/
theorem OwnInv.release_once (h : OwnInv cfg s) (hf : FrameOk s t f) (x : Addr × Thread) :
    s.allocated.count x = (s.freed ++ [(s.threadTable f.tableIndex, t)]).count x +
      if x.1 ∈ s.heap.live.erase (s.threadTable f.tableIndex) ∧ s.owner x.1 = x.2
        then 1 else 0 := by
  obtain ⟨-, hne, howner⟩ := h.frame_owner hf
  rw [h.once x]
  simp only [List.count_append, List.count_singleton, Finset.mem_erase]
  obtain ⟨a, u⟩ := x
  by_cases ha : a = s.threadTable f.tableIndex
  · subst ha
    simp [h.live_slot hne, howner, Prod.ext_iff]
  · have hxne : ((s.threadTable f.tableIndex, t) == (a, u)) = false := by
      simpa [Prod.ext_iff] using fun heq => absurd heq.symm ha
    simp [hxne, ha]

/-- Freeing the thread's own table and emptying its slot keeps the invariant. -/
theorem OwnInv.release (h : OwnInv cfg s) {h' : Heap (Nat → Ptr)} (hpc : s.pc t = .release f)
    (hlive : h'.live = s.heap.live.erase (s.threadTable f.tableIndex)) :
    s.owner (s.threadTable f.tableIndex) = t ∧
    OwnInv cfg { s.goto t .outside with
      heap := h'
      threadTable := Function.update s.threadTable f.tableIndex 0
      freed := s.freed ++ [(s.threadTable f.tableIndex, t)]
      released := Function.update s.released t (some f.tableIndex) } := by
  have hok : FrameOk s t f := h.frame t f (by rw [hpc]; rfl)
  obtain ⟨hi0, htab, howner⟩ := h.frame_owner hok
  -- a slot that is still taken is another one
  have htaken : ∀ j, Function.update s.threadTable f.tableIndex 0 j ≠ 0 →
      j ≠ f.tableIndex ∧ s.threadTable j ≠ 0 := by
    intro j hj
    by_cases hji : j = f.tableIndex
    · simp [hji] at hj
    · exact ⟨hji, by simpa [Function.update_of_ne hji] using hj⟩
  refine ⟨howner, ?_, fun j hj => h.range j (htaken j hj).2, fun a => ?_, fun j hj => ?_,
    fun u hu hune => ?_, fun u j hu => ?_, fun u f' hf => ?_, fun x => ?_⟩
  · show Function.update s.threadTable f.tableIndex 0 0 = 0
    rw [Function.update_of_ne hi0.symm, h.slot0]
  · show a ∈ h'.live ↔ _
    rw [hlive]
    exact h.release_live a
  · obtain ⟨hji, hj'⟩ := htaken j hj
    show s.threadData (s.owner (Function.update s.threadTable f.tableIndex 0 j)) = j ∧
      Function.update s.released t (some f.tableIndex)
        (s.owner (Function.update s.threadTable f.tableIndex 0 j)) = none
    rw [Function.update_of_ne hji, Function.update_of_ne (h.owner_ne hok hj' hji)]
    exact h.home j hj'
  · have hut : u ≠ t := by
      rintro rfl
      simp at hu
    simp only [Function.update_of_ne hut] at hu
    show Function.update s.threadTable f.tableIndex 0 (s.threadData u) ≠ 0 ∧
      s.owner (Function.update s.threadTable f.tableIndex 0 (s.threadData u)) = u
    rw [Function.update_of_ne (h.index_ne hok hut hu)]
    exact h.mine u hu hune
  · by_cases hut : u = t
    · subst hut
      simp only [Function.update_self, Option.some.injEq] at hu
      exact hok.index.trans hu
    · simp only [Function.update_of_ne hut] at hu
      exact h.gone u j hu
  · -- the exits of the other threads are about other slots
    have hut : u ≠ t := by
      rintro rfl
      simp [TsdState.goto, ExitPc.frame?] at hf
    have hf' : (s.pc u).frame? = some f' := by
      simpa [TsdState.goto, Function.update_of_ne hut] using hf
    obtain ⟨hrel', hidx', hsl', hne'⟩ := h.frame u f' hf'
    have hji : f'.tableIndex ≠ f.tableIndex := by
      rw [← hidx']
      exact h.index_ne hok hut hrel'
    refine ⟨?_, hidx', ?_, hne'⟩
    · simpa [Function.update_of_ne hut] using hrel'
    · simpa [Function.update_of_ne hji] using hsl'
  · show s.allocated.count x = _
    have hcount := h.release_once hok x
    rw [← hlive] at hcount
    exact hcount

end Release

/-- **Step lemma.**  A step of a thread that does not go back to a slot taken by another keeps
    the invariant, and touches its own table only. -/
theorem OwnInv.step (h : OwnInv cfg s) {e : TsdEvent}
    (hstale : e.usesIndex cfg s = true → ∀ i, s.released t = some i → s.threadTable i = 0)
    (hs : TsdStep cfg s t e out s') :
    OwnInv cfg s' ∧ (e.plants = false → ∀ x ∈ out.touched, x.2 = t) := by
  -- the table that an exit works on belongs to its thread
  have hframe : ∀ {f}, (s.pc t).frame? = some f → s.owner f.threadData = t := by
    intro f hf
    obtain ⟨hrel, hidx, hsl, hne⟩ := h.frame t f hf
    have htab : s.threadTable (s.threadData t) ≠ 0 := by rw [hidx, hsl]; exact hne
    have hown := (h.own_index (fun i hi => by rw [hrel] at hi; cases hi) htab).2
    rwa [hidx, hsl] at hown
  cases hs with
  | keyNone hi hkey =>
    exact ⟨h.of_same ⟨rfl, rfl, rfl, rfl, rfl, rfl, rfl⟩ h.frame, by simp⟩
  | keyNew hi hkey hlive hcell =>
    exact ⟨h.of_same ⟨rfl, hlive, rfl, rfl, rfl, rfl, rfl⟩ h.frame,
      by simp [TsdEvent.plants]⟩
  | keyDelete hk => exact ⟨h.of_same ⟨rfl, rfl, rfl, rfl, rfl, rfl, rfl⟩ h.frame, by simp⟩
  | setFree hfree => exact ⟨h, by simp⟩
  | setFail => exact ⟨h.of_same ⟨rfl, rfl, rfl, rfl, rfl, rfl, rfl⟩ h.frame, by simp⟩
  | setOwn hfree htab hlive hd hcell =>
    have hown := h.own_index (hstale (by simp [TsdEvent.usesIndex, hfree])) htab
    refine ⟨h.of_same (sameTables_heap hlive) h.frame, fun _ x hx => ?_⟩
    obtain rfl := List.mem_singleton.mp hx
    exact hown.2
  | setNew hfree htab hi hslot hanswer hlive hcell hreg =>
    refine ⟨h.new htab hi hslot hanswer hlive, fun _ x hx => ?_⟩
    obtain rfl := List.mem_singleton.mp hx
    rfl
  | getFree hfree => exact ⟨h, by simp⟩
  | getNone hfree htab => exact ⟨h, by simp⟩
  | getOwn hfree htab hd =>
    have hown := h.own_index (hstale (by simp [TsdEvent.usesIndex, hfree])) htab
    refine ⟨h, fun _ x hx => ?_⟩
    obtain rfl := List.mem_singleton.mp hx
    exact hown.2
  | exitNone hpc => exact ⟨h.of_same ⟨rfl, rfl, rfl, rfl, rfl, rfl, rfl⟩ h.frame, by simp⟩
  | @exitScan r hpc htab =>
    have hown := h.own_index (hstale rfl) htab
    have h' : OwnInv cfg { s with registered := r } :=
      h.of_same ⟨rfl, rfl, rfl, rfl, rfl, rfl, rfl⟩ h.frame
    refine ⟨h'.goto fun f hf => ?_, by simp⟩
    obtain rfl := Option.some.inj hf
    exact ⟨hown.1, rfl, rfl, htab⟩
  | move he hpc hpc' hindex hdata htouched =>
    obtain ⟨hrel, hidx, hsl, hne⟩ := h.frame t _ hpc
    refine ⟨h.goto fun f hf => ?_, fun _ x hx => ?_⟩
    · obtain rfl := Option.some.inj (hpc'.symm.trans hf)
      exact ⟨hrel, by rw [hindex]; exact hidx, by rw [hindex, hdata]; exact hsl,
        by rw [hdata]; exact hne⟩
    · rw [htouched x hx]
      exact hframe hpc
  | @runDestructor f d h₁ hpc hlive hd hcell =>
    have hf : (s.pc t).frame? = some f := by rw [hpc]; rfl
    have h' := h.of_same (sameTables_heap hlive) h.frame
    refine ⟨h'.goto fun f' hf' => ?_, fun _ x hx => ?_⟩
    · obtain rfl := Option.some.inj hf'
      obtain ⟨hrel, hidx, hsl, hne⟩ := h.frame t f hf
      exact ⟨hrel, hidx, hsl, hne⟩
    · obtain rfl := List.mem_singleton.mp hx
      exact hframe hf
  | releaseNone hpc htab =>
    exact ⟨h.goto (by simp [ExitPc.frame?]), by simp⟩
  | release hpc htab hlive hcell =>
    obtain ⟨hown, h'⟩ := h.release hpc hlive
    refine ⟨h', fun _ x hx => ?_⟩
    obtain rfl := List.mem_singleton.mp hx
    exact hown

/-! ### Every table is freed -/

/-- The owner of a live table has an `ethread_exit` to come, or is in one. -/
def TsdState.ExitPending (s : TsdState) : Prop :=
  ∀ a ∈ s.heap.live, s.registered (s.owner a) ≠ 0 ∨ s.pc (s.owner a) ≠ .outside

/-- Initially no thread has begun to exit, and there is nothing to free. -/
theorem exitPending_init (cfg : EthreadConfig) : (TsdState.init cfg).ExitPending := by
  intro a ha
  simp [TsdState.init, Heap.empty] at ha

/-- A thread without live tables has had them all freed, by the account of allocations and frees. -/
theorem OwnInv.allFreed (h : OwnInv cfg s) (hnone : ∀ a ∈ s.heap.live, s.owner a ≠ t) :
    s.AllFreed t := by
  intro a
  have hcount := h.once (a, t)
  rw [if_neg fun hl => hnone a hl.1 hl.2] at hcount
  exact hcount.symm

/-- A thread that finds no table in its slot has none, since its own would be there. -/
theorem OwnInv.none_of_no_table (h : OwnInv cfg s) (htab : s.threadTable (s.threadData t) = 0) :
    ∀ a ∈ s.heap.live, s.owner a ≠ t := by
  intro a ha
  obtain ⟨hne, i, rfl⟩ := (h.live a).mp ha
  exact h.other_of_no_table htab hne

/-- A thread that is about to free its table has one, so that it is not `free(NULL)` that it
    calls. -/
theorem OwnInv.release_ne (h : OwnInv cfg s) {f : ExitFrame} (hpc : s.pc t = .release f) :
    s.threadTable f.tableIndex ≠ 0 :=
  (h.frame_owner (h.frame t f (by rw [hpc]; rfl))).2.1

/-- The exit of a thread that goes on in `ethread_exit` is still to come. -/
theorem TsdState.ExitPending.goto (h : s.ExitPending) {pc : ExitPc} {f : ExitFrame}
    (hpc : pc.frame? = some f) : (s.goto t pc).ExitPending := by
  intro a ha
  by_cases hat : s.owner a = t
  · refine Or.inr ?_
    show Function.update s.pc t pc (s.owner a) ≠ .outside
    rw [hat, Function.update_self]
    rintro rfl
    cases hpc
  · refine (h a ha).imp_right fun hout => ?_
    show Function.update s.pc t pc (s.owner a) ≠ .outside
    rwa [Function.update_of_ne hat]

/-- What the kernel takes from the registrations of a thread without live tables, or of one
    that goes on in `ethread_exit`, leaves the exits of the others to come. -/
theorem TsdState.ExitPending.registered (h : s.ExitPending) {r : Thread → Nat}
    (hreg : ∀ u ≠ t, r u = s.registered u) (a : Addr) (ha : a ∈ s.heap.live)
    (hat : s.owner a ≠ t) : r (s.owner a) ≠ 0 ∨ s.pc (s.owner a) ≠ .outside := by
  rw [hreg _ hat]
  exact h a ha

/-- **Step lemma.**  Every live table stays one that its owner's exit will free: the exit is
    registered, or under way. -/
theorem TsdState.ExitPending.step (h : s.ExitPending) (hinv : OwnInv cfg s) {e : TsdEvent}
    (hs : TsdStep cfg s t e out s') : s'.ExitPending := by
  cases hs with
  | keyNone => exact h
  | keyNew hi hkey hlive =>
    intro a ha
    exact h a (hlive ▸ ha)
  | keyDelete => exact h
  | setFree => exact h
  | @setFail k p added answer err r hreg =>
    intro a ha
    have hle : s.registered (s.owner a) ≤ r (s.owner a) := hreg _
    refine (h a ha).imp_left fun hpos => ?_
    show r (s.owner a) ≠ 0
    omega
  | setOwn hfree htab hlive =>
    intro a ha
    exact h a (hlive ▸ ha)
  | @setNew k p added answer i h' r hfree htab hi hslot hanswer hlive hcell hreg =>
    -- with the new table `ethread_exit` was registered once more
    intro a ha
    obtain ⟨hle, hpos⟩ := hreg
    show r (Function.update s.owner answer t a) ≠ 0 ∨
      s.pc (Function.update s.owner answer t a) ≠ .outside
    by_cases hanew : a = answer
    · subst hanew
      rw [Function.update_self]
      exact Or.inl hpos
    · rw [Function.update_of_ne hanew]
      have ha' : a ∈ insert answer s.heap.live := hlive ▸ ha
      have hmore : s.registered (s.owner a) ≤ r (s.owner a) := hle _
      refine (h a ((Finset.mem_insert.mp ha').resolve_left hanew)).imp_left fun hold => ?_
      omega
  | getFree => exact h
  | getNone => exact h
  | getOwn => exact h
  | exitNone hpc htab hreg =>
    intro a ha
    exact h.registered hreg a ha (hinv.none_of_no_table htab a ha)
  | @exitScan r hpc htab hreg =>
    -- the thread itself is now in `ethread_exit`
    intro a ha
    by_cases hat : s.owner a = t
    · refine Or.inr ?_
      show Function.update s.pc t _ (s.owner a) ≠ .outside
      rw [hat, Function.update_self]
      rintro ⟨⟩
    · refine (h.registered hreg a ha hat).imp_right fun hout => ?_
      show Function.update s.pc t _ (s.owner a) ≠ .outside
      rwa [Function.update_of_ne hat]
  | move he hpc hpc' => exact h.goto hpc'
  | @runDestructor f d h' hpc hlive =>
    have hsame : ({ s with heap := h' } : TsdState).ExitPending := fun a ha => h a (hlive ▸ ha)
    exact hsame.goto (f := f) rfl
  | releaseNone hpc htab => exact absurd htab (hinv.release_ne hpc)
  | @release f h' hpc htab hlive =>
    -- the tables that are left belong to other threads
    intro a ha
    obtain ⟨hane, ha'⟩ := Finset.mem_erase.mp (hlive ▸ ha : a ∈ s.heap.live.erase _)
    have hat : s.owner a ≠ t := by
      obtain ⟨hne, j, rfl⟩ := (hinv.live a).mp ha'
      refine hinv.owner_ne (hinv.frame t f (by rw [hpc]; rfl)) hne fun hji => hane (by rw [hji])
    refine (h a ha').imp_right fun hout => ?_
    show Function.update s.pc t _ (s.owner a) ≠ .outside
    rwa [Function.update_of_ne hat]

/-- **The end of `ethread_exit`.**  With the step that leaves it, the thread has no table. -/
theorem OwnInv.returned (h : OwnInv cfg s) {e : TsdEvent} (he : e.exits = true)
    (hs : TsdStep cfg s t e out s') (hinv : OwnInv cfg s') (hpc' : s'.pc t = .outside) :
    s'.AllFreed t := by
  refine hinv.allFreed ?_
  cases hs with
  | exitNone hpc htab => exact h.none_of_no_table htab
  | exitScan => simp [TsdState.goto] at hpc'
  | move he hpc hpc'' =>
    rw [goto_frame_self] at hpc'
    subst hpc'
    cases hpc''
  | runDestructor => simp [TsdState.goto] at hpc'
  | releaseNone hpc htab => exact absurd htab (h.release_ne hpc)
  | release => exact fun a ha => hinv.exited (by simp) ha
  | _ => cases he

/-! ### Runs -/

/-- **Run lemma.**  A run without stale accesses keeps the invariant, every step of it touches
    the thread's own table only, and the exits free what was allocated. -/
theorem ownInv_run {as : List ((Thread × TsdEvent) × TsdOut)}
    (h : ((tsdSystem cfg).restrict (NotStale cfg)).Run as s) :
    (OwnInv cfg s ∧ s.ExitPending) ∧
    (∀ b ∈ as, b.1.2.plants = false → ∀ x ∈ b.2.touched, x.2 = b.1.1) ∧
    ∀ b, as.getLast? = some b → b.1.2.exits = true → s.pc b.1.1 = .outside →
      s.AllFreed b.1.1 := by
  refine h.invariant_trace (I := fun as s => (OwnInv cfg s ∧ s.ExitPending) ∧
    (∀ b ∈ as, b.1.2.plants = false → ∀ x ∈ b.2.touched, x.2 = b.1.1) ∧
    ∀ b, as.getLast? = some b → b.1.2.exits = true → s.pc b.1.1 = .outside →
      s.AllFreed b.1.1) ?_ ?_
  · rintro s rfl
    exact ⟨⟨ownInv_init cfg, exitPending_init cfg⟩, by simp, by simp⟩
  · rintro as s ⟨⟨t, e⟩, out⟩ s' - ⟨⟨hinv, hpend⟩, hown, -⟩ ⟨hs, hstale⟩
    have hcase := stepTsd_cases hinv hs
    obtain ⟨hinv', hown'⟩ := hinv.step hstale hcase
    refine ⟨⟨hinv', hpend.step hinv hcase⟩, fun b hb => ?_, fun b hb he hpc => ?_⟩
    · rcases List.mem_append.mp hb with hb | hb
      · exact hown b hb
      · obtain rfl := List.mem_singleton.mp hb
        exact hown'
    · obtain rfl : ((t, e), out) = b := by simpa using hb
      exact hinv.returned he hcase hinv' hpc

/-! ### No step is undefined -/

/-- A live table has an entry for every key, to be written: no step gets stuck there. -/
theorem exists_storeEntry {key : Nat} (p : Ptr) (ha : a ∈ s.heap.live) (hkey : key < cfg.keysMax) :
    ∃ s', s.storeEntry cfg a key p = some s' := by
  obtain ⟨d, hd⟩ := Option.isSome_iff_exists.mp ((s.heap.cell_isSome a).mpr ha)
  obtain ⟨h', hs⟩ := Heap.exists_store (Function.update d key p) ha
  exact ⟨{ s with heap := h' }, by simp [TsdState.storeEntry, hkey, Heap.load, hd, hs]⟩

/-- A live table has an entry for every key, to be read. -/
theorem exists_loadEntry {key : Nat} (ha : a ∈ s.heap.live) (hkey : key < cfg.keysMax) :
    ∃ v, s.loadEntry cfg a key = some v := by
  obtain ⟨d, hd⟩ := Option.isSome_iff_exists.mp ((s.heap.cell_isSome a).mpr ha)
  exact ⟨d key, by simp [TsdState.loadEntry, hkey, Heap.load, hd]⟩

/-- Planting a key finds every table, when the tables in the slots are live. -/
theorem exists_plant_fold {k : Nat} {tab : Nat → Addr} {L : List Nat} {h : Heap (Nat → Ptr)}
    (hlive : ∀ i ∈ L, tab i ≠ 0 → tab i ∈ h.live) :
    ∃ h', L.foldlM (fun h i => if tab i = 0 then some h
      else do
        let d ← h.load (tab i)
        h.store (tab i) (Function.update d k 0)) h = some h' := by
  induction L generalizing h with
  | nil => exact ⟨h, rfl⟩
  | cons i L ih =>
    by_cases hi : tab i = 0
    · obtain ⟨h', hs⟩ := ih fun j hj => hlive j (List.mem_cons_of_mem _ hj)
      exact ⟨h', by simpa [hi] using hs⟩
    · have ha := hlive i (by simp) hi
      obtain ⟨d, hd⟩ := Option.isSome_iff_exists.mp ((h.cell_isSome _).mpr ha)
      obtain ⟨h₁, hs₁⟩ := Heap.exists_store (Function.update d k 0) ha
      obtain ⟨-, hl, -, -⟩ := Heap.store_eq_some.mp hs₁
      obtain ⟨h', hs⟩ := ih (h := h₁) fun j hj hne => by
        rw [hl]
        exact hlive j (List.mem_cons_of_mem _ hj) hne
      exact ⟨h', by simpa [hi, Heap.load, hd, hs₁] using hs⟩

/-- The loop that plants the `NULL`s comes to its end: the tables that it finds are live. -/
theorem OwnInv.exists_plant (h : OwnInv cfg s) (k : Nat) : ∃ h', s.plant cfg k = some h' :=
  exists_plant_fold fun _ _ hne => h.live_slot hne

/-- `ethread_key_create` is defined in every state that the invariant allows. -/
theorem OwnInv.keyCreate_defined (h : OwnInv cfg s) {d n : Nat} (hn : n ≤ cfg.dataMax) :
    ∃ out s', keyCreate cfg s d n = some (out, s') := by
  obtain ⟨i, hinit⟩ : ∃ i, initKeys cfg s n
      = some { s with dataIndex := i, threadKey := s.keyMap cfg } := by
    by_cases hfirst : cfg.dataMax < s.dataIndex
    · exact ⟨n, by simp [initKeys, TsdState.keyMap, hfirst, hn]⟩
    · exact ⟨s.dataIndex, by simp [initKeys, TsdState.keyMap, hfirst]⟩
  cases halloc : (s.keyMap cfg).alloc with
  | none =>
    simp only [keyCreate, hinit, Option.bind_eq_bind, Option.bind_some, halloc]
    exact ⟨_, _, rfl⟩
  | some km =>
    obtain ⟨k, m⟩ := km
    obtain ⟨h', hplant⟩ := h.exists_plant k
    have hplant' : TsdState.plant cfg { s with
        dataIndex := i
        threadKey := m
        keyDestructor := Function.update s.keyDestructor k d } k = some h' := hplant
    simp only [keyCreate, hinit, Option.bind_eq_bind, Option.bind_some, halloc, hplant']
    exact ⟨_, _, rfl⟩

/-- `ethread_setspecific` is defined for every key of the configuration, once the keys are
    initialised. -/
theorem OwnInv.setspecific_defined (h : OwnInv cfg s) {k : Nat} {p : Ptr} {added : Bool}
    {answer : Addr} (hk : k < cfg.keysMax) (hinit : s.dataIndex ≤ cfg.dataMax) :
    ∃ out s', setspecific cfg s t k p added answer = some (out, s') := by
  have hdata : s.getData cfg t = some (s.threadData t) := by simp [TsdState.getData, hinit]
  cases hfree : s.keyFree cfg k with
  | true =>
    simp only [setspecific, hfree, if_true]
    exact ⟨_, _, rfl⟩
  | false =>
    -- it finds its table, or gets a new one, or fails
    have htable : (∃ table s₁, localTable cfg s t added answer = some (.ok table, s₁) ∧
          table ∈ s₁.heap.live) ∨
        ∃ err s₁, localTable cfg s t added answer = some (.error err, s₁) := by
      by_cases htab : s.threadTable (s.threadData t) = 0
      · simp only [localTable, hdata, Option.bind_eq_bind, Option.bind_some, htab, if_true,
          newTable]
        cases (TsdState.slots cfg).find? fun i => decide (s.threadTable i = 0) with
        | none => exact Or.inr ⟨_, _, rfl⟩
        | some i =>
          cases added with
          | false => exact Or.inr ⟨_, _, rfl⟩
          | true =>
            cases hmalloc : s.heap.malloc answer cfg.garbage with
            | none => exact Or.inr ⟨_, _, rfl⟩
            | some h₁ =>
              obtain ⟨-, -, hl₁, -, -⟩ := Heap.malloc_eq_some.mp hmalloc
              obtain ⟨h₂, hs₂⟩ := Heap.exists_store (h := h₁) (a := answer) (fun _ => 0)
                (by rw [hl₁]; simp)
              obtain ⟨-, hl₂, -, -⟩ := Heap.store_eq_some.mp hs₂
              refine Or.inl ⟨answer, _, by simp only [hs₂]; rfl, ?_⟩
              show answer ∈ h₂.live
              rw [hl₂, hl₁]
              simp
      · exact Or.inl ⟨_, s, by simp [localTable, hdata, htab], h.live_slot htab⟩
    rcases htable with ⟨table, s₁, hs₁, hl⟩ | ⟨err, s₁, hs₁⟩
    · obtain ⟨s₂, hs₂⟩ := exists_storeEntry p hl hk
      simp only [setspecific, hfree, Bool.false_eq_true, if_false, hs₁, Option.bind_eq_bind,
        Option.bind_some, hs₂]
      exact ⟨_, _, rfl⟩
    · simp only [setspecific, hfree, Bool.false_eq_true, if_false, hs₁, Option.bind_eq_bind,
        Option.bind_some]
      exact ⟨_, _, rfl⟩

/-- `ethread_getspecific` is defined for every key of the configuration, once the keys are
    initialised. -/
theorem OwnInv.getspecific_defined (h : OwnInv cfg s) {k : Nat} (hk : k < cfg.keysMax)
    (hinit : s.dataIndex ≤ cfg.dataMax) : ∃ out s', getspecific cfg s t k = some (out, s') := by
  have hdata : s.getData cfg t = some (s.threadData t) := by simp [TsdState.getData, hinit]
  cases hfree : s.keyFree cfg k with
  | true =>
    simp only [getspecific, hfree, if_true]
    exact ⟨_, _, rfl⟩
  | false =>
    by_cases htab : s.threadTable (s.threadData t) = 0
    · simp only [getspecific, hfree, Bool.false_eq_true, if_false, hdata, Option.bind_eq_bind,
        Option.bind_some, htab, if_true]
      exact ⟨_, _, rfl⟩
    · obtain ⟨v, hv⟩ := exists_loadEntry (h.live_slot htab) hk
      simp only [getspecific, hfree, Bool.false_eq_true, hdata, Option.bind_eq_bind,
        Option.bind_some, htab, if_false, hv]
      exact ⟨_, _, rfl⟩

/-- The steps of `ethread_exit` are defined, so that an exit that has begun can always go on. -/
theorem OwnInv.exitNext_defined (h : OwnInv cfg s) {f : ExitFrame}
    (hpc : s.pc t = .scan f ∨ s.pc t = .release f) :
    ∃ out s', exitNext cfg s t = some (out, s') := by
  rcases hpc with hpc | hpc
  · obtain ⟨-, -, hsl, hne⟩ := h.frame t f (by rw [hpc]; rfl)
    -- the table is there, so reading and writing it is defined
    have hl : f.threadData ∈ s.heap.live := by
      rw [← hsl]
      exact h.live_slot (by rw [hsl]; exact hne)
    simp only [exitNext, hpc, scanKey]
    split
    · rename_i hk
      split
      · exact ⟨_, _, rfl⟩
      split
      · exact ⟨_, _, rfl⟩
      obtain ⟨v, hv⟩ := exists_loadEntry hl hk
      obtain ⟨s₁, hs₁⟩ := exists_storeEntry 0 hl hk
      simp only [hv, Option.bind_eq_bind, Option.bind_some]
      split
      · exact ⟨_, _, rfl⟩
      · simp only [hs₁]
        exact ⟨_, _, rfl⟩
    · split
      · exact ⟨_, _, rfl⟩
      · exact ⟨_, _, rfl⟩
  · -- freeing a table that is there is defined
    simp only [exitNext, hpc, releaseTable]
    split
    · exact ⟨_, _, rfl⟩
    · rename_i htab
      obtain ⟨h', hs⟩ := Heap.exists_free (h.live_slot htab)
      simp only [TsdState.goto, hs, Option.bind_eq_bind, Option.bind_some]
      exact ⟨_, _, rfl⟩

/-- **Progress.**  Under the invariant no step is undefined, so that the runs are not cut short by
    the model. -/
theorem OwnInv.defined (h : OwnInv cfg s) {e : TsdEvent} (he : e.enabled cfg s t = true) :
    ∃ out s', stepTsd cfg s (t, e) = some (out, s') := by
  unfold stepTsd
  cases e with
  | keyCreate d n =>
    simp only [TsdEvent.enabled, Bool.and_eq_true, decide_eq_true_eq] at he
    simpa [he.1] using h.keyCreate_defined he.2
  | keyDelete k =>
    simp only [TsdEvent.enabled, Bool.and_eq_true, decide_eq_true_eq] at he
    simp only [he.1, keyDelete, he.2, if_true]
    exact ⟨_, _, rfl⟩
  | setspecific k p added answer =>
    simp only [TsdEvent.enabled, Bool.and_eq_true, decide_eq_true_eq] at he
    simpa [he.1.1] using h.setspecific_defined he.1.2 he.2
  | getspecific k =>
    simp only [TsdEvent.enabled, Bool.and_eq_true, decide_eq_true_eq] at he
    simpa [he.1.1] using h.getspecific_defined he.1.2 he.2
  | exitStart =>
    simp only [TsdEvent.enabled, Bool.and_eq_true, decide_eq_true_eq] at he
    obtain ⟨⟨hpc, hreg⟩, hinit⟩ := he
    -- a thread that exits finds its slot
    have hdata : ∀ r, TsdState.getData cfg { s with registered := r } t
        = some (s.threadData t) := by
      intro r
      simp [TsdState.getData, hinit]
    simp only [hpc, if_true, exitStart, hreg, if_false, hdata, Option.bind_eq_bind,
      Option.bind_some]
    split
    · exact ⟨_, _, rfl⟩
    · exact ⟨_, _, rfl⟩
  | exitNext =>
    simp only [TsdEvent.enabled] at he
    cases hpc : s.pc t with
    | scan f => exact h.exitNext_defined (Or.inl hpc)
    | release f => exact h.exitNext_defined (Or.inr hpc)
    | outside => simp [hpc] at he
    | inDestructor f => simp [hpc] at he
  | destructorReturn =>
    simp only [TsdEvent.enabled] at he
    cases hpc : s.pc t with
    | inDestructor f =>
      simp only [destructorReturn, hpc]
      exact ⟨_, _, rfl⟩
    | _ => simp [hpc] at he

/-- **Table ownership.**  As long as no thread goes back to the slot of a table that its
    `ethread_exit` has freed while another thread has the slot, every thread touches its own
    table only, and every table is freed exactly once, by its owner: no more than once, and
    once when its owner's `ethread_exit` has run. -/
theorem table_ownership {as : List ((Thread × TsdEvent) × TsdOut)}
    (h : ((tsdSystem cfg).restrict (NotStale cfg)).Run as s) : TableOwnership cfg as s := by
  obtain ⟨⟨hinv, hpend⟩, hown, hreturned⟩ := ownInv_run h
  refine ⟨hown, hinv.once, hreturned, fun t hreg hpc => hinv.allFreed fun a ha hat => ?_,
    fun t ht a ha => hinv.exited ht ha, hinv.slot0, fun t e he => hinv.defined he⟩
  rcases hpend a ha with hpos | hin
  · exact hpos (hat ▸ hreg)
  · exact hin (hat ▸ hpc)

/-! ### Stale indices -/

/-- The configuration with its default values, with zeros behind the arrays. -/
def defaultConfig : EthreadConfig where
  keysMax := 128
  threadsMax := 64 + 1
  iterations := 4
  dataMax := 6
  beyond _ := 0
  garbage _ := 0

/-- Thread 1 stores a value and exits, and thread 2 is given the slot of its table. -/
def slotReuse : List (Thread × TsdEvent) :=
  [(1, .keyCreate 0 0), (1, .setspecific 0 5 true 8), (1, .exitStart)]
    ++ List.replicate 130 (1, .exitNext) ++ [(2, .setspecific 0 7 true 16)]

/-- A slot is used by a second thread after the first one has freed its table. -/
theorem table_ownership_slotReuse :
    ∃ os s, LTS.exec (LTS.guard (stepTsd defaultConfig) (NotStale defaultConfig)) slotReuse
        (.init defaultConfig) = some (os, s) ∧
      s.freed = [(8, 1)] ∧ TableOwnership defaultConfig (slotReuse.zip os) s := by
  have hout : (LTS.exec (LTS.guard (stepTsd defaultConfig) (NotStale defaultConfig)) slotReuse
      (.init defaultConfig)).map (fun x => x.2.freed) = some [(8, 1)] := by decide +kernel
  obtain ⟨⟨os, s⟩, hex, hfreed⟩ := Option.map_eq_some_iff.mp hout
  exact ⟨os, s, hex, hfreed, table_ownership (LTS.Run.exec_restrict (.init rfl) hex)⟩

/-- Afterwards a later destructor of thread 1 reads the key, through the slot number that it still
    has. -/
def staleRead : List (Thread × TsdEvent) := slotReuse ++ [(1, .getspecific 0)]

/-- What the read answers, and the table it reads: that of thread 2, with the value that thread 2
    stored. -/
def staleAnswer : (Thread × TsdEvent) × TsdOut := ((1, .getspecific 0), ⟨.ptr 7, [(16, 2)]⟩)

/-- **A stale index reaches another thread's table.**  The slot was freed, taken by thread 2, and
    read by thread 1. -/
theorem stale_index :
    ¬∀ as s, (tsdSystem defaultConfig).Run as s → TableOwnership defaultConfig as s := by
  intro hall
  have hout : (LTS.exec (stepTsd defaultConfig) staleRead (.init defaultConfig)).map
      (fun x => (staleRead.zip x.1).contains staleAnswer) = some true := by
    decide +kernel
  obtain ⟨⟨os, s⟩, hex, hmem⟩ := Option.map_eq_some_iff.mp hout
  have hown := (hall _ s (LTS.Run.exec (.init rfl) hex)).own staleAnswer (by simpa using hmem) rfl
  exact absurd (hown (16, 2) (by simp [staleAnswer])) (by decide)

end Ecos.Ethread
