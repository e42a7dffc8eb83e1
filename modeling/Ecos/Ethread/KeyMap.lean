import Ecos.Ethread.KeyWords
import Ecos.Ethread.Registration
import Ecos.Ethread.Specific
import Mathlib.Data.Set.Card

namespace Ecos.Ethread

open Ecos.Lib

/-!
# The allocator of keys

`ethread_key_create` and `ethread_key_delete` hand out and take back keys through a bit map of
`ETHREAD_KEYS_MAX/32` words.

* `KeyPool`, `keyPool` — the allocator as its callers see it: a set of allocated keys, each with
  its destructor, and the smallest free key is the next;
* `KeyInv` — the bit map agrees with the history of the calls, after any run;
* `key_allocator` — so the code refines the pool, and its calls are always defined;
* `AccessesInside`, `KeyMapSafe` — the words of the map that the steps read and write are inside
  the array, and the number of keys it can hand out;
* `key_map_safety` — these are as configured exactly when `ETHREAD_KEYS_MAX` is a multiple of 32.
-/

/-! ### The allocator as its callers see it -/

/-- The keys that are allocated, and the destructor given with each key last. -/
structure KeyPool where
  allocated : Finset Nat
  destructor : Nat → Addr

/-- The calls that create and delete keys. -/
inductive KeyCall
  | create (destructor : Addr)
  | delete (key : Nat)
  deriving DecidableEq, Repr

/-- What the calls do to a pool of `size` keys, and what they answer. -/
inductive KeyPool.Step (size : Nat) : KeyPool → KeyCall × TsdRet → KeyPool → Prop
  /-- The smallest free key is handed out. -/
  | create {P : KeyPool} {d k : Nat} (hk : IsLeast {j | j < size ∧ j ∉ P.allocated} k) :
      Step size P (.create d, .key k)
        ⟨insert k P.allocated, Function.update P.destructor k d⟩
  /-- No key is free. -/
  | full {P : KeyPool} {d : Nat} (hfull : ∀ j < size, j ∈ P.allocated) :
      Step size P (.create d, .int (some .EAGAIN)) P
  | delete {P : KeyPool} {k : Nat} (hk : k < size) :
      Step size P (.delete k, .int none) ⟨P.allocated.erase k, P.destructor⟩

/-- The pool of `size` keys as a transition system: the abstract allocator that the bit map
    refines. -/
def keyPool (size : Nat) : LTS KeyPool (KeyCall × TsdRet) where
  init P := P = ⟨∅, fun _ => 0⟩
  step := KeyPool.Step size

/-- The call of the pool that a step of the layer is, with its answer. -/
def keyCall (b : (Thread × TsdEvent) × TsdOut) : Option (KeyCall × TsdRet) :=
  match b.1.2 with
  | .keyCreate d _ => some (.create d, b.2.ret)
  | .keyDelete k => some (.delete k, b.2.ret)
  | _ => none

/-- Is the event a call of the allocator? The other steps leave the pool alone. -/
def TsdEvent.isKeyCall : TsdEvent → Bool
  | .keyCreate .. | .keyDelete _ => true
  | _ => false

/-- The bit map and the array of destructors stand for the pool. -/
structure TsdState.Represents (cfg : EthreadConfig) (s : TsdState) (P : KeyPool) : Prop where
  free : ∀ k, (s.keyMap cfg).free k = true ↔ k < cfg.mapSize ∧ k ∉ P.allocated
  destructor : s.keyDestructor = P.destructor

variable {cfg : EthreadConfig} {s s' : TsdState} {t : Thread} {e : TsdEvent} {out : TsdOut}
  {as : List ((Thread × TsdEvent) × TsdOut)} {k : Nat}

/-! ### The bit map and the history -/

/-- The bit map agrees with the history of the calls, once it was initialised. -/
structure KeyInv (cfg : EthreadConfig) (as : List ((Thread × TsdEvent) × TsdOut))
    (s : TsdState) : Prop where
  length : s.threadKey.length = cfg.keysMax / 32
  keys : ∀ k, (s.keyMap cfg).free k
    = (decide (k < cfg.mapSize) && !(history as).allocated k)
  bound : ∀ k, (history as).allocated k = true → k < cfg.mapSize

/-- Initially the invariant holds: no key is allocated, and the map to be set up is full. -/
theorem keyInv_init (cfg : EthreadConfig) : KeyInv cfg [] (.init cfg) := by
  have hlaw := lawInv_init cfg
  refine ⟨hlaw.length, hlaw.keys, fun k hk => ?_⟩
  simp [history] at hk

/-- A key handed out is a key of the map, never one behind it. -/
theorem KeyInv.lt_mapSize (h : KeyInv cfg as s) {m : FreeMap 32}
    (halloc : (s.keyMap cfg).alloc = some (k, m)) : k < cfg.mapSize := by
  have hlt := (FreeMap.alloc_spec halloc).1
  rw [s.length_keyMap h.length] at hlt
  exact hlt

/-- **Step lemma.**  `key_create` and `key_delete` change map and history alike, the other steps
    neither. -/
theorem KeyInv.step (h : KeyInv cfg as s) (hs : KeyStep cfg s e out s') :
    KeyInv cfg (as ++ [((t, e), out)]) s' := by
  refine ⟨hs.length h.length, fun k => hs.free h.length (h.keys k), fun k hk => ?_⟩
  rw [history_append] at hk
  cases hs with
  | full hret hfull hinit hmap hdtor =>
    simp only [KeyHistory.record, hret] at hk
    exact h.bound k hk
  | @create d n k' m _ _ hret halloc hinit hmap hdtor =>
    simp only [KeyHistory.record, hret] at hk
    by_cases hkk : k = k'
    · subst hkk
      exact h.lt_mapSize halloc
    · rw [Function.update_of_ne hkk] at hk
      exact h.bound k hk
  | @delete k' _ _ hret hk' hindex hmap hdtor =>
    simp only [KeyHistory.record, hret] at hk
    have hkk : k ≠ k' := by
      rintro rfl
      simp at hk
    rw [Function.update_of_ne hkk] at hk
    exact h.bound k hk
  | other hcreate hdelete hindex hmap hdtor hret =>
    rw [KeyHistory.record_allocated_other _ hcreate hdelete] at hk
    exact h.bound k hk

/-- **Run lemma.**  The bit map agrees with the history of every run. -/
theorem keyInv_run (h : (tsdSystem cfg).Run as s) : KeyInv cfg as s := by
  refine h.invariant_trace (I := KeyInv cfg) ?_ ?_
  · rintro s rfl
    exact keyInv_init cfg
  · rintro as s ⟨⟨t, e⟩, out⟩ s' - ih hs
    exact ih.step (stepTsd_keys hs)

/-- When `key_create` finds no key, all are allocated: `EAGAIN` is exact. -/
theorem KeyInv.alloc_eq_none (h : KeyInv cfg as s) :
    (s.keyMap cfg).alloc = none ↔ ∀ k < cfg.mapSize, (history as).allocated k = true := by
  rw [FreeMap.alloc_eq_none]
  refine forall_congr' fun k => ?_
  rw [h.keys k]
  by_cases hk : k < cfg.mapSize
  · simp [hk]
  · simp [hk]

/-! ### Refinement -/

/-- The pool after the calls `as`, with the destructors of state `s`: what the memory stands for. -/
def poolOf (cfg : EthreadConfig) (as : List ((Thread × TsdEvent) × TsdOut)) (s : TsdState) :
    KeyPool where
  allocated := (Finset.range cfg.mapSize).filter fun k => (history as).allocated k
  destructor := s.keyDestructor

/-- The words represent the pool of keys, in every state that a run reaches. -/
theorem KeyInv.represents (h : KeyInv cfg as s) : s.Represents cfg (poolOf cfg as s) := by
  refine ⟨fun k => ?_, rfl⟩
  rw [h.keys k]
  simp only [poolOf, Finset.mem_filter, Finset.mem_range]
  by_cases hk : k < cfg.mapSize
  · simp [hk]
  · simp [hk]

/-- A key of the map is in the pool's set when the history has it. -/
theorem KeyInv.mem_poolOf (h : KeyInv cfg as s) :
    k ∈ (poolOf cfg as s).allocated ↔ (history as).allocated k = true := by
  simp only [poolOf, Finset.mem_filter, Finset.mem_range]
  exact ⟨fun hk => hk.2, fun hk => ⟨h.bound k hk, hk⟩⟩

/-- **The calls refine the pool.**  A step of the layer is the pool's step on the call it is, or
    leaves the pool as it was. -/
theorem KeyInv.pool_step (h : KeyInv cfg as s) (hs : KeyStep cfg s e out s') :
    match keyCall ((t, e), out) with
    | some c => KeyPool.Step cfg.mapSize (poolOf cfg as s) c
        (poolOf cfg (as ++ [((t, e), out)]) s')
    | none => poolOf cfg (as ++ [((t, e), out)]) s' = poolOf cfg as s := by
  have h' := h.step (t := t) hs
  -- the pools are compared key by key
  have hext : ∀ P : KeyPool, (∀ k, k ∈ P.allocated ↔
      ((history as).record ((t, e), out)).allocated k = true) →
      P.destructor = s'.keyDestructor → P = poolOf cfg (as ++ [((t, e), out)]) s' := by
    intro P hset hdtor
    have halloc : P.allocated = (poolOf cfg (as ++ [((t, e), out)]) s').allocated := by
      ext k
      rw [h'.mem_poolOf, history_append]
      exact hset k
    cases P
    simp only at halloc hdtor
    rw [halloc, hdtor]
    rfl
  cases hs with
  | full hret hfull hinit hmap hdtor =>
    simp only [keyCall, hret]
    have hpool := hext (poolOf cfg as s) (fun k => by
      rw [h.mem_poolOf]
      simp only [KeyHistory.record, hret]) hdtor.symm
    rw [← hpool]
    exact .full fun k hk => h.mem_poolOf.mpr (h.alloc_eq_none.mp hfull k hk)
  | @create d n k' m _ _ hret halloc hinit hmap hdtor =>
    simp only [keyCall, hret]
    have hpool := hext ⟨insert k' (poolOf cfg as s).allocated,
        Function.update (poolOf cfg as s).destructor k' d⟩ (fun k => by
      rw [Finset.mem_insert, h.mem_poolOf]
      simp only [KeyHistory.record, hret]
      by_cases hkk : k = k'
      · simp [hkk]
      · simp [hkk]) hdtor.symm
    rw [← hpool]
    -- first fit: no smaller key is free
    refine .create ⟨⟨h.lt_mapSize halloc, ?_⟩, ?_⟩
    · exact ((h.represents.free k').mp (FreeMap.alloc_spec halloc).2.1).2
    · intro j hj
      by_contra hlt
      have hfree := (h.represents.free j).mpr hj
      rw [FreeMap.alloc_least halloc (by omega)] at hfree
      cases hfree
  | @delete k' _ _ hret hk' hindex hmap hdtor =>
    simp only [keyCall, hret]
    have hpool := hext ⟨(poolOf cfg as s).allocated.erase k', (poolOf cfg as s).destructor⟩
      (fun k => by
        rw [Finset.mem_erase, h.mem_poolOf]
        simp only [KeyHistory.record, hret]
        by_cases hkk : k = k'
        · simp [hkk]
        · simp [hkk]) hdtor.symm
    rw [← hpool]
    rw [h.length, Nat.div_lt_iff_lt_mul (by omega), Nat.mul_comm] at hk'
    exact .delete hk'
  | other hcreate hdelete hindex hmap hdtor hret =>
    have hnone : keyCall ((t, e), out) = none := by
      cases e with
      | keyCreate d n => exact absurd rfl (hcreate d n)
      | keyDelete k => exact absurd rfl (hdelete k)
      | _ => rfl
    rw [hnone]
    refine (hext (poolOf cfg as s) (fun k => ?_) hdtor.symm).symm
    rw [h.mem_poolOf, KeyHistory.record_allocated_other _ hcreate hdelete]

/-! ### The calls are defined -/

/-- Calls of the allocator alone keep the tables in order, and no thread is in
    `ethread_exit`. -/
theorem keyCalls_run (h : (tsdSystem cfg).Run as s) (hcalls : ∀ b ∈ as, b.1.2.isKeyCall = true) :
    OwnInv cfg s ∧ ∀ t, s.pc t = .outside := by
  refine h.invariant_trace (I := fun as s => (∀ b ∈ as, b.1.2.isKeyCall = true) →
    OwnInv cfg s ∧ ∀ t, s.pc t = .outside) ?_ ?_ hcalls
  · rintro s rfl -
    exact ⟨ownInv_init cfg, fun t => rfl⟩
  · rintro as s ⟨⟨t, e⟩, out⟩ s' - ih hs hcalls
    obtain ⟨hown, hpc⟩ := ih fun b hb => hcalls b (List.mem_append_left _ hb)
    have hcall : e.isKeyCall = true := hcalls ((t, e), out) (by simp)
    have hcase := stepTsd_cases hown hs
    -- the calls that create and delete keys do not look at the slots of the threads
    have hstale : e.usesIndex cfg s = true → ∀ i, s.released t = some i → s.threadTable i = 0 := by
      intro huse
      cases e with
      | keyCreate d n => cases huse
      | keyDelete k => cases huse
      | _ => cases hcall
    refine ⟨(hown.step hstale hcase).1, ?_⟩
    cases hcase with
    | keyNone hi hkey => exact hpc
    | keyNew hi hkey hlive hcell => exact hpc
    | keyDelete hk => exact hpc
    | move he hpc' hpc'' hindex hdata htouched =>
      rcases he with rfl | rfl
      · cases hcall
      · cases hcall
    | _ => cases hcall

/-- **The key allocator.**  After any run of the layer the bit map stands for a pool of keys
    that has made the run's `key_create` and `key_delete` calls, with the same answers: the
    smallest free key, or `EAGAIN` exactly when every key of the map is allocated.  Runs of
    these calls alone never get stuck. -/
theorem key_allocator (h : (tsdSystem cfg).Run as s) :
    (∃ P, (keyPool cfg.mapSize).Run (as.filterMap keyCall) P ∧ s.Represents cfg P) ∧
    ((∀ b ∈ as, b.1.2.isKeyCall = true) → ∀ t e, e.isKeyCall = true →
      e.enabled cfg s t = true → ∃ out s', stepTsd cfg s (t, e) = some (out, s')) := by
  refine ⟨⟨poolOf cfg as s, ?_, (keyInv_run h).represents⟩, fun hcalls t e _ he =>
    (keyCalls_run h hcalls).1.defined he⟩
  induction h with
  | @init s h =>
    obtain rfl : s = .init cfg := h
    refine .init ?_
    show poolOf cfg [] (.init cfg) = _
    simp only [poolOf, history, List.foldl_nil, Bool.false_eq_true, Finset.filter_false]
    rfl
  | @step as s b s' hrun hs ih =>
    obtain ⟨⟨t, e⟩, out⟩ := b
    have hstep := (keyInv_run hrun).pool_step (t := t) (stepTsd_keys hs)
    rw [List.filterMap_append]
    cases hcall : keyCall ((t, e), out) with
    | none =>
      -- the step is not about keys, and the pool stays
      rw [hcall] at hstep
      simp only at hstep
      simpa [hcall, hstep] using ih
    | some c =>
      -- the step of the code is a step of the pool
      rw [hcall] at hstep
      have hone : [((t, e), out)].filterMap keyCall = [c] := by simp [hcall]
      rw [hone]
      exact .step ih hstep

/-- Threads 1 and 2 create the keys 0 .. 32, delete keys 31 and 5, and create two more. -/
def keyCalls : List (Thread × TsdEvent) :=
  List.replicate 33 (1, .keyCreate 9 0)
    ++ [(2, .keyDelete 31), (1, .keyDelete 5), (2, .keyCreate 7 0), (1, .keyCreate 8 0)]

/-- The keys 5 and 31 are deleted, and handed out again, the lower one first. -/
theorem key_allocator_reuse :
    ∃ os s P, LTS.exec (stepTsd defaultConfig) keyCalls (.init defaultConfig) = some (os, s) ∧
      (os.drop 35).map (·.ret) = [.key 5, .key 31] ∧
      (keyPool 128).Run ((keyCalls.zip os).filterMap keyCall) P ∧
      s.Represents defaultConfig P := by
  have hout : (LTS.exec (stepTsd defaultConfig) keyCalls (.init defaultConfig)).map
      (fun x => (x.1.drop 35).map (·.ret)) = some [.key 5, .key 31] := by decide +kernel
  obtain ⟨⟨os, s⟩, hex, hkeys⟩ := Option.map_eq_some_iff.mp hout
  obtain ⟨⟨P, hrun, hrep⟩, -⟩ := key_allocator (LTS.Run.exec (.init rfl) hex)
  exact ⟨os, s, P, hex, hkeys, hrun, hrep⟩

/-! ### The words of the map -/

/-- The values that the configuration allows, as the bounds in the cdl file have them. -/
structure EthreadConfig.Legal (cfg : EthreadConfig) : Prop where
  keysMax : 128 ≤ cfg.keysMax ∧ cfg.keysMax ≤ 65535
  threadsMax : 64 + 1 ≤ cfg.threadsMax ∧ cfg.threadsMax ≤ 1024 + 1
  iterations : 4 ≤ cfg.iterations ∧ cfg.iterations ≤ 100

/-- The key that a call is given was returned by a `key_create`, at whatever time before. -/
def TsdEvent.KeyFrom (as : List ((Thread × TsdEvent) × TsdOut)) : TsdEvent → Prop
  | .keyDelete key | .setspecific key .. | .getspecific key => ∃ b ∈ as, b.2.ret = .key key
  | _ => True

/-- Every index into `thread_key` that a step uses, as a program on the array, is inside it. -/
def AccessesInside (cfg : EthreadConfig) : Prop :=
  ∀ as s, (tsdSystem cfg).Run as s → ∀ t e, TsdEvent.KeyFrom as e →
    ∀ i ∈ keyIndices cfg s (t, e), i < cfg.keysMax / 32

/-- `key_create` returns `EAGAIN` when `ETHREAD_KEYS_MAX` keys are allocated, and not before. -/
def FullCapacity (cfg : EthreadConfig) : Prop :=
  ∀ as s, (tsdSystem cfg).Run as s → ∀ t d n out s',
    stepTsd cfg s (t, .keyCreate d n) = some (out, s') →
    (out.ret = .int (some .EAGAIN) ↔ {k | (history as).allocated k = true}.ncard = cfg.keysMax)

/-- What is expected of the map of keys: no access behind it, and all the keys of the
    configuration. -/
structure KeyMapSafe (cfg : EthreadConfig) : Prop where
  inside : AccessesInside cfg
  capacity : FullCapacity cfg

/-- A key that was returned by `key_create` is a key of the map, also after it was deleted. -/
theorem returned_lt_mapSize (h : (tsdSystem cfg).Run as s) :
    ∀ b ∈ as, ∀ k, b.2.ret = .key k → k < cfg.mapSize := by
  induction h with
  | init h => simp
  | @step as s b s' hrun hs ih =>
    obtain ⟨⟨t, e⟩, out⟩ := b
    intro b hb k hk
    rcases List.mem_append.mp hb with hb | hb
    · exact ih b hb k hk
    · obtain rfl := List.mem_singleton.mp hb
      have hret : out.ret = .key k := hk
      cases stepTsd_keys hs with
      | full hret' => rw [hret'] at hret; cases hret
      | create hret' halloc =>
        rw [hret'] at hret
        cases hret
        exact (keyInv_run hrun).lt_mapSize halloc
      | delete hret' => rw [hret'] at hret; cases hret
      | other _ _ _ _ _ hret' => exact absurd hret (hret' k)

/-- When `ETHREAD_KEYS_MAX` is a multiple of 32, every index is inside the array: the two roundings
    agree. -/
theorem accessesInside_of_dvd (hdvd : 32 ∣ cfg.keysMax) : AccessesInside cfg := by
  intro as s hrun t e he
  -- a key that was returned has its word inside the array
  have hkey : ∀ key, (∃ b ∈ as, b.2.ret = .key key) → key / 32 < cfg.keysMax / 32 := by
    rintro key ⟨b, hb, hret⟩
    exact Nat.div_lt_of_lt_mul (returned_lt_mapSize hrun b hb key hret)
  show ArrayProgram.Inside cfg.beyond (stepOn cfg (s.withKeys []) (t, e)) s.threadKey
    (cfg.keysMax / 32)
  cases e with
  | keyCreate d n =>
    dsimp only [stepOn]
    split
    · exact inside_keyCreateOn _ d n
    · exact ArrayProgram.inside_pure none
  | keyDelete key =>
    dsimp only [stepOn]
    split
    · exact inside_keyDeleteOn _ (hkey key he)
    · exact ArrayProgram.inside_pure none
  | setspecific key p added answer =>
    dsimp only [stepOn]
    split
    · exact inside_setspecificOn _ p added answer (hkey key he)
    · exact ArrayProgram.inside_pure none
  | getspecific key =>
    dsimp only [stepOn]
    split
    · exact inside_getspecificOn _ (hkey key he)
    · exact ArrayProgram.inside_pure none
  | exitNext =>
    dsimp only [stepOn]
    split
    · -- the key loop looks at keys below a multiple of 32
      obtain ⟨m, hm⟩ := hdvd
      exact inside_scanKeyOn _ fun hk => by omega
    · exact ArrayProgram.inside_pure _
    · exact ArrayProgram.inside_pure none
  | exitStart => exact ArrayProgram.inside_pure _
  | destructorReturn => exact ArrayProgram.inside_pure _

/-! ### The number of keys -/

/-- The keys of the history are those of the pool, so that they can be counted there. -/
theorem KeyInv.ncard_allocated (h : KeyInv cfg as s) :
    {k | (history as).allocated k = true}.ncard = (poolOf cfg as s).allocated.card := by
  have hset : {k | (history as).allocated k = true} = ↑(poolOf cfg as s).allocated := by
    ext k
    rw [Finset.mem_coe, h.mem_poolOf]
    rfl
  rw [hset, Set.ncard_coe_finset]

/-- All keys of the map are allocated when there are as many allocated keys as the map has
    bits. -/
theorem KeyInv.full_iff (h : KeyInv cfg as s) :
    (∀ k < cfg.mapSize, (history as).allocated k = true) ↔
      {k | (history as).allocated k = true}.ncard = cfg.mapSize := by
  have hsub : (poolOf cfg as s).allocated ⊆ Finset.range cfg.mapSize := Finset.filter_subset _ _
  rw [h.ncard_allocated]
  constructor
  · intro hall
    have heq : (poolOf cfg as s).allocated = Finset.range cfg.mapSize := by
      refine Finset.Subset.antisymm hsub fun k hk => ?_
      exact h.mem_poolOf.mpr (hall k (Finset.mem_range.mp hk))
    rw [heq, Finset.card_range]
  · intro hcard k hk
    have heq : (poolOf cfg as s).allocated = Finset.range cfg.mapSize :=
      Finset.eq_of_subset_of_card_le hsub (by rw [hcard, Finset.card_range])
    rw [← h.mem_poolOf, heq]
    exact Finset.mem_range.mpr hk

/-- `key_create` returns `EAGAIN` when every bit of the map is allocated, and not before. -/
theorem KeyInv.eagain_iff (h : KeyInv cfg as s) {d n : Nat}
    (hs : stepTsd cfg s (t, .keyCreate d n) = some (out, s')) :
    out.ret = .int (some .EAGAIN) ↔
      {k | (history as).allocated k = true}.ncard = cfg.mapSize := by
  rw [← h.full_iff, ← h.alloc_eq_none]
  cases stepTsd_keys hs with
  | full hret hfull => simp [hret, hfull]
  | create hret halloc => simp [hret, halloc]
  | other hcreate => exact absurd rfl (hcreate d n)

/-- As many keys as the map has bits can be allocated, by as many calls of `key_create`. -/
theorem exists_allocated {n : Nat} (hn : n ≤ cfg.mapSize) :
    ∃ as s, (tsdSystem cfg).Run as s ∧ (∀ b ∈ as, b.1.2.isKeyCall = true) ∧
      {k | (history as).allocated k = true}.ncard = n := by
  induction n with
  | zero =>
    refine ⟨[], .init cfg, .init rfl, by simp, ?_⟩
    simp [history]
  | succ n ih =>
    obtain ⟨as, s, hrun, hcalls, hcard⟩ := ih (by omega)
    obtain ⟨hown, hpc⟩ := keyCalls_run hrun hcalls
    have hinv := keyInv_run hrun
    have henabled : (TsdEvent.keyCreate 0 0).enabled cfg s 1 = true := by
      simp [TsdEvent.enabled, hpc, ExitPc.mayCall]
    obtain ⟨out, s', hs⟩ := hown.defined henabled
    have hrun' : (tsdSystem cfg).Run (as ++ [((1, .keyCreate 0 0), out)]) s' := .step hrun hs
    refine ⟨_, s', hrun', fun b hb => ?_, ?_⟩
    · rcases List.mem_append.mp hb with hb | hb
      · exact hcalls b hb
      · rw [List.mem_singleton.mp hb]
        rfl
    · have hstep := hinv.pool_step (t := 1) (stepTsd_keys hs)
      rw [(keyInv_run hrun').ncard_allocated]
      rw [hinv.ncard_allocated] at hcard
      simp only [keyCall] at hstep
      generalize poolOf cfg (as ++ [((1, .keyCreate 0 0), out)]) s' = P' at hstep
      generalize out.ret = ret at hstep
      cases hstep with
      | create hk =>
        rw [Finset.card_insert_of_notMem hk.1.2, hcard]
      | full hfull =>
        -- all bits allocated: there were too many keys already
        have hsub : Finset.range cfg.mapSize ⊆ (poolOf cfg as s).allocated := fun j hj =>
          hfull j (Finset.mem_range.mp hj)
        have hle := Finset.card_le_card hsub
        rw [Finset.card_range] at hle
        omega

/-- The number of keys is as configured only when it is a multiple of 32. -/
theorem fullCapacity_iff : FullCapacity cfg ↔ 32 ∣ cfg.keysMax := by
  have hsize : cfg.mapSize = cfg.keysMax ↔ 32 ∣ cfg.keysMax := by
    unfold EthreadConfig.mapSize
    omega
  rw [← hsize]
  constructor
  · intro hcap
    obtain ⟨as, s, hrun, hcalls, hcard⟩ := @exists_allocated cfg _ (Nat.le_refl cfg.mapSize)
    obtain ⟨hown, hpc⟩ := keyCalls_run hrun hcalls
    have henabled : (TsdEvent.keyCreate 0 0).enabled cfg s 1 = true := by
      simp [TsdEvent.enabled, hpc, ExitPc.mayCall]
    obtain ⟨out, s', hs⟩ := hown.defined henabled
    have hfull := ((keyInv_run hrun).eagain_iff hs).mpr hcard
    rw [← hcard, (hcap as s hrun 1 0 0 out s' hs).mp hfull]
  · intro heq as s hrun t d n out s' hs
    rw [← heq]
    exact (keyInv_run hrun).eagain_iff hs

/-! ### The keys behind the map -/

/-- `ethread_exit` passes by the keys that have no destructor, up to any key of the loop. -/
theorem exists_scan_past {f : ExitFrame} {n : Nat} (hrun : (tsdSystem cfg).Run as s)
    (hpc : s.pc t = .scan f) (hdtor : ∀ k, s.keyDestructor k = 0)
    (hn : f.key + n ≤ cfg.keysMax) :
    ∃ as' s', (tsdSystem cfg).Run as' s' ∧ s'.pc t = .scan { f with key := f.key + n } ∧
      ∀ k, s'.keyDestructor k = 0 := by
  induction n with
  | zero => exact ⟨as, s, hrun, hpc, hdtor⟩
  | succ n ih =>
    obtain ⟨as', s', hrun', hpc', hdtor'⟩ := ih (by omega)
    have hlt : f.key + n < cfg.keysMax := by omega
    have hstep : stepTsd cfg s' (t, .exitNext)
        = some (⟨.none, []⟩, s'.goto t (.scan { f with key := f.key + (n + 1) })) := by
      simp only [stepTsd, exitNext, hpc', scanKey, hlt, if_true, hdtor']
      split
      · rfl
      · rfl
    have hnext : (tsdSystem cfg).Run (as' ++ [((t, .exitNext), ⟨.none, []⟩)])
        (s'.goto t (.scan { f with key := f.key + (n + 1) })) := .step hrun' hstep
    exact ⟨_, _, hnext, goto_frame_self _ _ _, hdtor'⟩

/-- One key is allocated, without a destructor, and no thread has a table: the start of the run
    that reads too far. -/
structure FirstKey (cfg : EthreadConfig) (s : TsdState) (k : Nat) : Prop where
  lt : k < cfg.mapSize
  allocated : s.keyFree cfg k = false
  init : s.dataIndex ≤ cfg.dataMax
  destructor : ∀ j, s.keyDestructor j = 0
  outside : s.pc 1 = .outside
  table : ∀ i, s.threadTable i = 0
  live : s.heap.live = ∅

/-- The first call of `ethread_key_create` hands out a key, in every legal configuration. -/
theorem exists_firstKey (hlegal : cfg.Legal) :
    ∃ as s k, (tsdSystem cfg).Run as s ∧ OwnInv cfg s ∧ FirstKey cfg s k := by
  obtain ⟨hkeys, -⟩ := hlegal.keysMax
  have hinv := keyInv_init cfg
  have hown := ownInv_init cfg
  obtain ⟨out, s, hs⟩ := hown.defined (t := 1) (e := .keyCreate 0 0)
    (by simp [TsdEvent.enabled, TsdState.init, ExitPc.mayCall])
  have hrun : (tsdSystem cfg).Run [((1, .keyCreate 0 0), out)] s := .step (.init rfl) hs
  have hinv' := keyInv_run hrun
  cases stepTsd_keys hs with
  | full hret hfull =>
    -- the map of at least 128 keys was not full
    have hall := hinv.alloc_eq_none.mp hfull 0 (by unfold EthreadConfig.mapSize; omega)
    simp [history] at hall
  | other hcreate => exact absurd rfl (hcreate 0 0)
  | @create _ _ k m _ _ hret halloc hinit hmap hdtor =>
    have hk := hinv.lt_mapSize halloc
    have hfree : s.keyFree cfg k = false := by
      have hdiv : k / 32 < s.threadKey.length := by
        rw [hinv'.length]
        exact Nat.div_lt_of_lt_mul hk
      rw [TsdState.keyFree_eq hinit hdiv, hinv'.keys]
      simp [history, KeyHistory.record, hret]
    have hnull : ∀ j, s.keyDestructor j = 0 := by
      intro j
      rw [hdtor]
      by_cases hj : j = k
      · simp [hj]
      · rw [Function.update_of_ne hj]
        rfl
    obtain ⟨hpc, htab, hlive⟩ : s.pc 1 = .outside ∧ (∀ i, s.threadTable i = 0) ∧
        s.heap.live = ∅ := by
      cases stepTsd_cases hown hs with
      | keyNone hi hkey => cases hret
      | keyNew hi hkey hlive hcell => exact ⟨rfl, fun _ => rfl, hlive⟩
      | move he => rcases he with he | he <;> cases he
    exact ⟨_, s, k, hrun, (keyCalls_run hrun (by simp [TsdEvent.isKeyCall])).1,
      hk, hfree, hinit, hnull, hpc, htab, hlive⟩

/-- Storing a value under it gives the thread a table, and registers `ethread_exit`. -/
theorem FirstKey.exists_table (h : FirstKey cfg s k) (hlegal : cfg.Legal) (hown : OwnInv cfg s) :
    ∃ out s', stepTsd cfg s (1, .setspecific k 5 true 8) = some (out, s') ∧
      s'.pc 1 = .outside ∧ s'.threadTable (s'.threadData 1) ≠ 0 ∧ s'.registered 1 ≠ 0 ∧
      s'.dataIndex ≤ cfg.dataMax ∧ ∀ j, s'.keyDestructor j = 0 := by
  obtain ⟨hthreads, -⟩ := hlegal.threadsMax
  have hslot : ∃ i ∈ TsdState.slots cfg, s.threadTable i = 0 := by
    refine ⟨1, ?_, h.table 1⟩
    simp only [TsdState.slots, List.mem_range'_1]
    omega
  obtain ⟨h₁, hmalloc⟩ : ∃ h₁, s.heap.malloc 8 cfg.garbage = some h₁ := by
    simp [Heap.malloc, h.live]
  have hkmax : k < cfg.keysMax := Nat.lt_of_lt_of_le h.lt (Nat.mul_div_le cfg.keysMax 32)
  obtain ⟨out, s', hset⟩ : ∃ out s', setspecific cfg s 1 k 5 true 8 = some (out, s') :=
    hown.setspecific_defined hkmax h.init
  have hs : stepTsd cfg s (1, .setspecific k 5 true 8) = some (out, s') := by
    simp [stepTsd, h.outside, ExitPc.mayCall, hset]
  refine ⟨out, s', hs, ?_⟩
  -- the call does not fail: the key is allocated, and there are a slot and memory
  rcases setspecific_exits hset with ⟨-, -, hno⟩ | ⟨-, -, hfail⟩ | ⟨hret, -, hreg⟩
  · rcases hno with hfree | hno
    · rw [h.allocated] at hfree
      cases hfree
    · exact absurd ⟨hslot, rfl⟩ hno
  · rw [hfail.2.2.2.2] at hmalloc
    cases hmalloc
  · cases setspecific_cases hset with
    | setFree => cases hret
    | setFail => cases hret
    | setOwn hfree htab => exact absurd (h.table _) htab
    | setNew hfree htab hi hsl hanswer hlive hcell hmore =>
      exact ⟨h.outside, by simp, hmore.2, h.init, h.destructor⟩
    | move he => rcases he with he | he <;> cases he

/-- A thread with a table reaches the keys of `ethread_exit`, no key having a destructor. -/
theorem exists_scan (hlegal : cfg.Legal) :
    ∃ as s f, (tsdSystem cfg).Run as s ∧ s.pc 1 = .scan f ∧ f.key = 0 ∧
      ∀ k, s.keyDestructor k = 0 := by
  obtain ⟨as, s, k, hrun, hown, hfirst⟩ := exists_firstKey hlegal
  obtain ⟨out, s₁, hs₁, hpc, htab, hreg, hinit, hdtor⟩ := hfirst.exists_table hlegal hown
  have hrun₁ : (tsdSystem cfg).Run (as ++ [((1, .setspecific k 5 true 8), out)]) s₁ :=
    .step hrun hs₁
  -- it exits
  let f : ExitFrame := ⟨s₁.threadData 1, s₁.threadTable (s₁.threadData 1), 0, false, 0⟩
  let s₂ := { s₁ with registered := Function.update s₁.registered 1 (s₁.registered 1 - 1) }.goto 1
    (.scan f)
  have hs₂ : stepTsd cfg s₁ (1, .exitStart) = some (⟨.none, []⟩, s₂) := by
    simp [stepTsd, hpc, exitStart, hreg, TsdState.getData, hinit, htab, s₂, f]
  have hrun₂ : (tsdSystem cfg).Run (as ++ [((1, .setspecific k 5 true 8), out)] ++
      [((1, .exitStart), ⟨.none, []⟩)]) s₂ := .step hrun₁ hs₂
  exact ⟨_, s₂, f, hrun₂, goto_frame_self _ _ _, rfl, hdtor⟩

/-- When `ETHREAD_KEYS_MAX` is not a multiple of 32, `ethread_exit` reads behind the array. -/
theorem not_accessesInside (hlegal : cfg.Legal) (hdvd : ¬32 ∣ cfg.keysMax) :
    ¬AccessesInside cfg := by
  intro hinside
  obtain ⟨as, s, f, hrun, hpc, hkey, hdtor⟩ := exists_scan hlegal
  have hlt : f.key + cfg.mapSize < cfg.keysMax := by
    unfold EthreadConfig.mapSize
    omega
  obtain ⟨as', s', hrun', hpc', -⟩ := exists_scan_past hrun hpc hdtor (Nat.le_of_lt hlt)
  have haccess := hinside as' s' hrun' 1 .exitNext trivial _ (mem_keyIndices_scan hpc' hlt)
  dsimp only at haccess
  unfold EthreadConfig.mapSize at haccess
  omega

/-- **Key map safety.**  The steps are programs on `thread_key`; in a configuration that the
    option's legal values allow, these use the array inside its bounds, and the map holds the
    configured number of keys, exactly when that number is a multiple of 32; when it is not, both
    fail. -/
theorem key_map_safety (hlegal : cfg.Legal) :
    (∀ as s, (tsdSystem cfg).Run as s → ∀ a,
      KeyProgram.run cfg (stepOn cfg (s.withKeys []) a) s.threadKey = stepTsd cfg s a) ∧
    (KeyMapSafe cfg ↔ 32 ∣ cfg.keysMax) ∧
      (¬32 ∣ cfg.keysMax → ¬AccessesInside cfg ∧ ¬FullCapacity cfg) := by
  refine ⟨fun as s hrun a => stepOn_run (keyInv_run hrun).length a,
    ⟨fun hsafe => fullCapacity_iff.mp hsafe.capacity, fun hdvd =>
      ⟨accessesInside_of_dvd hdvd, fullCapacity_iff.mpr hdvd⟩⟩, fun hdvd =>
    ⟨not_accessesInside hlegal hdvd, fun hcap => hdvd (fullCapacity_iff.mp hcap)⟩⟩

/-- With 128 keys the map is safe. -/
theorem key_map_safety_default : KeyMapSafe defaultConfig :=
  (key_map_safety ⟨by decide, by decide, by decide⟩).2.1.mpr (by decide)

/-- A configuration with 130 keys has a map of 128, and the key loop reads the word behind it. -/
theorem key_map_130 : ¬∀ cfg : EthreadConfig, cfg.Legal → KeyMapSafe cfg := by
  intro hall
  have hlegal : ({ defaultConfig with keysMax := 130 } : EthreadConfig).Legal :=
    ⟨by decide, by decide, by decide⟩
  exact absurd (fullCapacity_iff.mp (hall _ hlegal).capacity) (by decide)

end Ecos.Ethread
