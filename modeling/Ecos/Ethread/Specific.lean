import Ecos.Ethread.Ownership

namespace Ecos.Ethread

open Ecos.Lib

/-!
# The law of thread-specific data

* `KeyHistory`, `history` — which keys are allocated, and what each thread stored last under
  each of them, as the calls and their results tell;
* `LawInv` — the memory agrees with the history, with its step lemma `LawInv.step`;
* `thread_specific_data` — so `ethread_getspecific` answers what the history says, whatever
  keys and table slots were reused.
-/

/-- What the calls so far amount to for their callers: which keys exist, and what each thread
    stored under them. -/
structure KeyHistory where
  allocated : Nat → Bool
  /-- The pointer a thread stored last under a key since it was created. -/
  value : Thread → Nat → Ptr

/-- One more step: a created key holds `NULL` for every thread, a deleted one is gone, and a
    successful `ethread_setspecific` replaces the caller's value only. -/
def KeyHistory.record (H : KeyHistory) (b : (Thread × TsdEvent) × TsdOut) : KeyHistory :=
  match b.1.2, b.2.ret with
  | .keyCreate .., .key k =>
    { allocated := Function.update H.allocated k true
      value := fun t => Function.update (H.value t) k 0 }
  | .keyDelete k, .int none => { H with allocated := Function.update H.allocated k false }
  | .setspecific k p .., .int none =>
    { H with value := Function.update H.value b.1.1 (Function.update (H.value b.1.1) k p) }
  | _, _ => H

/-- The history of a trace, read off the calls and their return values and never off the memory. -/
def history (as : List ((Thread × TsdEvent) × TsdOut)) : KeyHistory :=
  as.foldl KeyHistory.record ⟨fun _ => false, fun _ _ => 0⟩

/-- A step more in the history, so that the invariant is carried along the run step by step. -/
theorem history_append (as : List ((Thread × TsdEvent) × TsdOut))
    (b : (Thread × TsdEvent) × TsdOut) : history (as ++ [b]) = (history as).record b := by
  simp [history]

/-- The kernel has called `ethread_exit` for the thread; from then on its values are being
    destroyed. -/
def Started (as : List ((Thread × TsdEvent) × TsdOut)) (t : Thread) : Prop :=
  ∃ b ∈ as, b.1 = (t, .exitStart)

/-- A key was created, or none was free: either way `ethread_key_create` has set up the map of free
    keys. -/
def Initialised (as : List ((Thread × TsdEvent) × TsdOut)) : Prop :=
  ∃ b ∈ as, b.1.2.plants = true

/-- The thread's `ethread_exit` has not freed its table: a thread does nothing more after its
    `ethread_exit` has returned. -/
def NotReturned (s : TsdState) (b : (Thread × TsdEvent) × TsdOut) : Prop :=
  s.released b.1.1 = none

instance (s : TsdState) (b : (Thread × TsdEvent) × TsdOut) : Decidable (NotReturned s b) :=
  inferInstanceAs (Decidable (_ = _))

/-- The number of keys in the map, which is `ETHREAD_KEYS_MAX` rounded down to whole words. -/
def EthreadConfig.mapSize (cfg : EthreadConfig) : Nat := 32 * (cfg.keysMax / 32)

/-- What the memory holds for thread `t` under key `k`, found the way the code finds it: data word,
    slot, table, entry. -/
def TsdState.valueOf (s : TsdState) (t : Thread) (k : Nat) : Ptr :=
  match s.heap.cell (s.threadTable (s.threadData t)) with
  | some d => d k
  | none => 0

variable {cfg : EthreadConfig} {s s' : TsdState} {t u : Thread} {e : TsdEvent} {out : TsdOut}
  {as : List ((Thread × TsdEvent) × TsdOut)} {k : Nat}

/-- A step more in the question who has begun to exit. -/
theorem started_append :
    Started (as ++ [((t, e), out)]) u ↔ Started as u ∨ (t = u ∧ e = .exitStart) := by
  simp only [Started, List.mem_append, List.mem_singleton, or_and_right, exists_or,
    exists_eq_left, Prod.mk.injEq]

/-- A step more in the question if the keys are initialised. -/
theorem initialised_append :
    Initialised (as ++ [((t, e), out)]) ↔ Initialised as ∨ e.plants = true := by
  simp only [Initialised, List.mem_append, List.mem_singleton, or_and_right, exists_or,
    exists_eq_left]

/-- The memory agrees with the history: the invariant behind the law of the thread-specific data. -/
structure LawInv (cfg : EthreadConfig) (as : List ((Thread × TsdEvent) × TsdOut))
    (s : TsdState) : Prop where
  own : OwnInv cfg s
  init : Initialised as ↔ s.dataIndex ≤ cfg.dataMax
  length : s.threadKey.length = cfg.keysMax / 32
  /-- The map of free keys, as the next `ethread_key_create` finds it. -/
  keys : ∀ k, (s.keyMap cfg).free k
    = (decide (k < cfg.mapSize) && !(history as).allocated k)
  outside : ∀ t, ¬Started as t → s.pc t = .outside ∧ s.released t = none
  value : ∀ t k, ¬Started as t → (history as).allocated k = true →
    s.valueOf t k = (history as).value t k

/-- Initially the law holds: no key was created, so nothing is claimed of the map. -/
theorem lawInv_init (cfg : EthreadConfig) : LawInv cfg [] (.init cfg) := by
  refine ⟨ownInv_init cfg, ?_, ?_, fun k => ?_, fun t _ => ⟨rfl, rfl⟩, fun t k _ hk => ?_⟩
  · simp [Initialised, TsdState.init]
  · simp [TsdState.init]
  · have hmap : TsdState.keyMap cfg (.init cfg) = FreeMap.full 32 (cfg.keysMax / 32) :=
      if_pos (Nat.lt_succ_self _)
    rw [hmap, FreeMap.free_full _ _ (by omega), history, List.foldl_nil, Bool.not_false,
      Bool.and_true]
    rfl
  · simp [history] at hk

/-! ### Tables of different threads -/

/-- Threads that have not freed their tables do not share one, so that a write for one thread is a
    write for no other. -/
theorem OwnInv.table_ne (h : OwnInv cfg s) (hu : s.released u = none) (ht : s.released t = none)
    (hne : u ≠ t) (htab : s.threadTable (s.threadData t) ≠ 0) :
    s.threadTable (s.threadData u) ≠ s.threadTable (s.threadData t) := by
  intro heq
  have hot := (h.own_index (fun i hi => by rw [ht] at hi; cases hi) htab).2
  have hou := (h.own_index (t := u) (fun i hi => by rw [hu] at hi; cases hi)
    (by rw [heq]; exact htab)).2
  rw [heq, hot] at hou
  exact hne hou.symm

/-- What a thread stored is not changed by writing to another thread's table, whatever is written
    there. -/
theorem OwnInv.valueOf_other (h : OwnInv cfg s) {x : Option (Nat → Ptr)}
    (hu : s.released u = none) (ht : s.released t = none) (hne : u ≠ t)
    (htab : s.threadTable (s.threadData t) ≠ 0) (hslots : s'.threadTable = s.threadTable)
    (hdata : s'.threadData = s.threadData)
    (hcell : s'.heap.cell
      = Function.update s.heap.cell (s.threadTable (s.threadData t)) x) :
    s'.valueOf u k = s.valueOf u k := by
  have hother := h.table_ne hu ht hne htab
  unfold TsdState.valueOf
  rw [hslots, hdata, hcell, Function.update_of_ne hother]

/-- A thread without a table has stored nothing, as `ethread_getspecific` answers for it. -/
theorem TsdState.valueOf_none (htab : s.threadTable (s.threadData t) = 0) : s.valueOf t k = 0 := by
  have hnull : s.heap.cell 0 = none := by
    cases hcell : s.heap.cell 0 with
    | none => rfl
    | some d => exact absurd (Heap.mem_live_of_cell hcell) s.heap.null_not_live
  rw [TsdState.valueOf, htab, hnull]

/-! ### The keys -/

/-- What a step does to the map of free keys and to the destructors, with one case for each kind of
    call. -/
inductive KeyStep (cfg : EthreadConfig) (s : TsdState) : TsdEvent → TsdOut → TsdState → Prop
  | full {d n : Nat} {out : TsdOut} {s' : TsdState} (hret : out.ret = .int (some .EAGAIN))
      (hfull : (s.keyMap cfg).alloc = none) (hinit : s'.dataIndex ≤ cfg.dataMax)
      (hmap : s'.threadKey = s.keyMap cfg) (hdtor : s'.keyDestructor = s.keyDestructor) :
      KeyStep cfg s (.keyCreate d n) out s'
  | create {d n k : Nat} {m : FreeMap 32} {out : TsdOut} {s' : TsdState}
      (hret : out.ret = .key k) (halloc : (s.keyMap cfg).alloc = some (k, m))
      (hinit : s'.dataIndex ≤ cfg.dataMax) (hmap : s'.threadKey = m)
      (hdtor : s'.keyDestructor = Function.update s.keyDestructor k d) :
      KeyStep cfg s (.keyCreate d n) out s'
  | delete {k : Nat} {out : TsdOut} {s' : TsdState} (hret : out.ret = .int none)
      (hk : k / 32 < s.threadKey.length) (hindex : s'.dataIndex = s.dataIndex)
      (hmap : s'.threadKey = s.threadKey.release k)
      (hdtor : s'.keyDestructor = s.keyDestructor) : KeyStep cfg s (.keyDelete k) out s'
  | other {e : TsdEvent} {out : TsdOut} {s' : TsdState} (hcreate : ∀ d n, e ≠ .keyCreate d n)
      (hdelete : ∀ k, e ≠ .keyDelete k) (hindex : s'.dataIndex = s.dataIndex)
      (hmap : s'.threadKey = s.threadKey) (hdtor : s'.keyDestructor = s.keyDestructor)
      (hret : ∀ k, out.ret ≠ .key k) : KeyStep cfg s e out s'

/-- **Steps and keys.**  Only `key_create` and `key_delete` change the map and the
    destructors. -/
theorem stepTsd_keys (hs : stepTsd cfg s (t, e) = some (out, s')) : KeyStep cfg s e out s' := by
  cases hplants : e.plants with
  | true =>
    cases e with
    | keyCreate d n =>
      unfold stepTsd at hs
      dsimp only at hs
      split at hs
      · obtain ⟨s₁, hs₁, hs⟩ := Option.bind_eq_some_iff.mp hs
        obtain ⟨i, hi, rfl⟩ := initKeys_spec hs₁
        cases halloc : (s.keyMap cfg).alloc with
        | none =>
          simp only [halloc] at hs
          obtain ⟨rfl, rfl⟩ := Prod.mk.inj (Option.some.inj hs)
          exact .full rfl halloc hi rfl rfl
        | some km =>
          obtain ⟨k, m⟩ := km
          simp only [halloc] at hs
          obtain ⟨h', -, hs⟩ := Option.bind_eq_some_iff.mp hs
          obtain ⟨rfl, rfl⟩ := Prod.mk.inj (Option.some.inj hs)
          exact .create rfl halloc hi rfl rfl
      · cases hs
    | _ => cases hplants
  | false =>
    cases stepTsd_cases_of_ne hplants hs with
    | keyNone hi hkey => cases hplants
    | keyNew hi hkey hlive hcell => cases hplants
    | keyDelete hk => exact .delete rfl hk rfl rfl rfl
    -- the moves of an exit change neither keys nor values
    | move he hpc hpc' hindex hdata htouched =>
      rcases he with rfl | rfl
      · exact .other nofun nofun rfl rfl rfl nofun
      · exact .other nofun nofun rfl rfl rfl nofun
    | _ => exact .other nofun nofun rfl rfl rfl nofun

/-- Steps that are neither `key_create` nor `key_delete` do not change which keys are allocated. -/
theorem KeyHistory.record_allocated_other (H : KeyHistory) (hcreate : ∀ d n, e ≠ .keyCreate d n)
    (hdelete : ∀ k, e ≠ .keyDelete k) :
    (H.record ((t, e), out)).allocated = H.allocated := by
  cases e with
  | keyCreate d n => exact absurd rfl (hcreate d n)
  | keyDelete k => exact absurd rfl (hdelete k)
  | setspecific k p added answer =>
    cases hret : out.ret with
    | int err => cases err <;> simp [KeyHistory.record, hret]
    | _ => simp [KeyHistory.record, hret]
  | _ => simp [KeyHistory.record]

/-- The map `key_create` works on has a bit for each key of the map. -/
theorem TsdState.length_keyMap (hlen : s.threadKey.length = cfg.keysMax / 32) :
    (s.keyMap cfg).length = cfg.keysMax / 32 := by
  unfold TsdState.keyMap
  split
  · simp [FreeMap.full]
  · exact hlen

/-- No step changes the number of words in the map. -/
theorem KeyStep.length (hlen : s.threadKey.length = cfg.keysMax / 32)
    (hs : KeyStep cfg s e out s') : s'.threadKey.length = cfg.keysMax / 32 := by
  have hmaplen := s.length_keyMap hlen
  cases hs with
  | full hret hfull hinit hmap hdtor => rw [hmap, hmaplen]
  | create hret halloc hinit hmap hdtor => rw [hmap, (FreeMap.alloc_spec halloc).2.2.1, hmaplen]
  | delete hret hk hindex hmap hdtor => rw [hmap, FreeMap.length_release, hlen]
  | other hcreate hdelete hindex hmap hdtor hret => rw [hmap, hlen]

/-- **Step lemma for the keys.**  A map that stands for the keys the history has not allocated
    still does after a step. -/
theorem KeyStep.free (hlen : s.threadKey.length = cfg.keysMax / 32)
    (hold : (s.keyMap cfg).free k = (decide (k < cfg.mapSize) && !(history as).allocated k))
    (hs : KeyStep cfg s e out s') :
    (s'.keyMap cfg).free k = (decide (k < cfg.mapSize) &&
      !(history (as ++ [((t, e), out)])).allocated k) := by
  rw [history_append]
  cases hs with
  | full hret hfull hinit hmap hdtor =>
    have hmap' : s'.keyMap cfg = s.keyMap cfg := (if_neg (Nat.not_lt.mpr hinit)).trans hmap
    rw [hmap', hold]
    simp only [KeyHistory.record, hret]
  | @create d n k' m _ _ hret halloc hinit hmap hdtor =>
    have hmap' : s'.keyMap cfg = m := (if_neg (Nat.not_lt.mpr hinit)).trans hmap
    obtain ⟨-, -, -, hfree⟩ := FreeMap.alloc_spec halloc
    rw [hmap', hfree, hold]
    simp only [KeyHistory.record, hret]
    by_cases hkk : k = k'
    · simp [hkk]
    · simp [hkk]
  | @delete k' _ _ hret hk' hindex hmap hdtor =>
    have hlt : k' < 32 * s.threadKey.length := by
      rw [Nat.div_lt_iff_lt_mul (by omega)] at hk'
      omega
    simp only [KeyHistory.record, hret]
    by_cases hinit : cfg.dataMax < s.dataIndex
    · -- the first `ethread_key_create` is still to come, and will find every key free
      have hfull : s.keyMap cfg = FreeMap.full 32 (cfg.keysMax / 32) := if_pos hinit
      have hmap' : s'.keyMap cfg = s.keyMap cfg :=
        (if_pos (by rw [hindex]; exact hinit)).trans hfull.symm
      rw [hmap', hold]
      by_cases hkk : k = k'
      · subst hkk
        rw [hlen] at hlt
        rw [hfull, FreeMap.free_full _ _ (by omega)] at hold
        have hsize : k < cfg.mapSize := hlt
        simp only [hlt, hsize, decide_true, Bool.true_and] at hold
        simp [← hold]
      · simp [hkk]
    · have hkey : s.keyMap cfg = s.threadKey := if_neg hinit
      have hmap' : s'.keyMap cfg = s.threadKey.release k' :=
        (if_neg (by rw [hindex]; exact hinit)).trans hmap
      rw [hmap', FreeMap.free_release _ hlt, ← hkey, hold]
      by_cases hkk : k = k'
      · subst hkk
        rw [hlen] at hlt
        simp [EthreadConfig.mapSize, hlt]
      · simp [hkk]
  | other hcreate hdelete hindex hmap hdtor hret =>
    have hmap' : s'.keyMap cfg = s.keyMap cfg := by
      rw [TsdState.keyMap, TsdState.keyMap, hindex, hmap]
    rw [hmap', hold, KeyHistory.record_allocated_other _ hcreate hdelete]

/-! ### The values -/

/-- What a step makes of the value `v` of thread `u` under key `k`: a new key starts with `NULL`
    for every thread, and `ethread_setspecific` stores. -/
def valueAfter (v : Ptr) (b : (Thread × TsdEvent) × TsdOut) (u : Thread) (k : Nat) : Ptr :=
  match b.1.2, b.2.ret with
  | .keyCreate .., .key k' => if k = k' then 0 else v
  | .setspecific k' p .., .int none => if u = b.1.1 ∧ k = k' then p else v
  | _, _ => v

/-- The history's values after a step, as one equation for all the steps. -/
theorem KeyHistory.record_value (H : KeyHistory) (b : (Thread × TsdEvent) × TsdOut) :
    (H.record b).value u k = valueAfter (H.value u k) b u k := by
  obtain ⟨⟨t, e⟩, out⟩ := b
  cases e with
  | keyCreate d n =>
    cases hret : out.ret with
    | key k' =>
      simp only [KeyHistory.record, valueAfter, hret]
      by_cases hkk : k = k'
      · simp [hkk]
      · rw [Function.update_of_ne hkk, if_neg hkk]
    | _ => simp only [KeyHistory.record, valueAfter, hret]
  | keyDelete k' =>
    cases hret : out.ret with
    | int err => cases err <;> simp only [KeyHistory.record, valueAfter, hret]
    | _ => simp only [KeyHistory.record, valueAfter, hret]
  | setspecific k' p added answer =>
    cases hret : out.ret with
    | int err =>
      cases err with
      | none =>
        simp only [KeyHistory.record, valueAfter, hret]
        -- only the value of the thread that called, and of this key
        by_cases hut : u = t
        · subst hut
          by_cases hkk : k = k'
          · simp [hkk]
          · simp [hkk]
        · simp [hut]
      | some err => simp only [KeyHistory.record, valueAfter, hret]
    | _ => simp only [KeyHistory.record, valueAfter, hret]
  | _ => simp only [KeyHistory.record, valueAfter]

/-- A key that is allocated after a step was so before, or the step created it. -/
theorem KeyHistory.allocated_of_record {H : KeyHistory} {b : (Thread × TsdEvent) × TsdOut}
    (hk : (H.record b).allocated k = true) :
    H.allocated k = true ∨ ∃ d n, b.1.2 = .keyCreate d n ∧ b.2.ret = .key k := by
  obtain ⟨⟨t, e⟩, out⟩ := b
  cases e with
  | keyCreate d n =>
    cases hret : out.ret with
    | key k' =>
      simp only [KeyHistory.record, hret] at hk
      by_cases hkk : k = k'
      · subst hkk
        exact Or.inr ⟨d, n, rfl, rfl⟩
      · rw [Function.update_of_ne hkk] at hk
        exact Or.inl hk
    | _ =>
      simp only [KeyHistory.record, hret] at hk
      exact Or.inl hk
  | keyDelete k' =>
    cases hret : out.ret with
    | int err =>
      cases err with
      | none =>
        simp only [KeyHistory.record, hret] at hk
        -- the deleted key is not allocated
        have hkk : k ≠ k' := by
          rintro rfl
          simp at hk
        rw [Function.update_of_ne hkk] at hk
        exact Or.inl hk
      | some err =>
        simp only [KeyHistory.record, hret] at hk
        exact Or.inl hk
    | _ =>
      simp only [KeyHistory.record, hret] at hk
      exact Or.inl hk
  | setspecific k' p added answer =>
    rw [KeyHistory.record_allocated_other (e := .setspecific k' p added answer) _ nofun nofun] at hk
    exact Or.inl hk
  | _ => exact Or.inl hk

/-- **Steps and values.**  What a step does to the value of thread `u` under key `k`, when
    neither thread has freed its table; in `ethread_exit` a thread changes its own values. -/
theorem OwnInv.valueOf_step (h : OwnInv cfg s) (hrelu : s.released u = none)
    (hret : s.released t = none) (hexit : u = t → e ≠ .exitNext)
    (hs : TsdStep cfg s t e out s') :
    s'.valueOf u k = valueAfter (s.valueOf u k) ((t, e), out) u k := by
  cases hs with
  | @keyNew d n i k' m dtor h' touched hi hkey hlive hcell =>
    simp only [TsdState.valueOf, hcell, valueAfter]
    cases s.heap.cell (s.threadTable (s.threadData u)) with
    | none => simp
    | some d =>
      by_cases hkk : k = k'
      · simp [hkk]
      · simp [hkk]
  | @setOwn k' p added answer d h' hfree htab hlive hd hcell =>
    simp only [valueAfter]
    by_cases hut : u = t
    · subst hut
      simp only [TsdState.valueOf, hd, hcell, Function.update_self, true_and]
      by_cases hkk : k = k'
      · simp [hkk]
      · rw [Function.update_of_ne hkk, if_neg hkk]
    · rw [if_neg fun hand => hut hand.1]
      exact h.valueOf_other hrelu hret hut htab rfl rfl hcell
  | @setNew k' p added answer i h' r hfree htab hi hslot hanswer hlive hcell =>
    simp only [valueAfter]
    by_cases hut : u = t
    · subst hut
      rw [TsdState.valueOf_none htab]
      simp only [TsdState.valueOf, Function.update_self, hcell, true_and]
      by_cases hkk : k = k'
      · simp [hkk]
      · rw [Function.update_of_ne hkk, if_neg hkk]
    · rw [if_neg fun hand => hut hand.1]
      -- the slot was free, so it is not the slot of `u`
      have hui : s.threadData u ≠ i := by
        intro hui
        have hi0 : i ≠ 0 := by
          rintro rfl
          simp [TsdState.slots] at hi
        have hm := (h.mine u hrelu (hui ▸ hi0)).1
        rw [hui] at hm
        exact hm hslot
      have htu : s.threadTable (s.threadData u) ≠ answer := by
        intro heq
        have hne : s.threadTable (s.threadData u) ≠ 0 := by rw [heq]; exact hanswer.1
        exact hanswer.2 (heq ▸ h.live_slot hne)
      simp only [TsdState.valueOf, Function.update_of_ne hut, Function.update_of_ne hui, hcell,
        Function.update_of_ne htu]
  | move he hpc hpc' hindex hdata htouched => rcases he with rfl | rfl <;> rfl
  | @runDestructor f d h' hpc hlive hd hcell =>
    obtain ⟨-, hidx, hsl, hne⟩ := h.frame t f (by rw [hpc]; rfl)
    have hut : u ≠ t := fun hut => hexit hut rfl
    rw [← hsl, ← hidx] at hcell hne
    have hval : ({ s with heap := h' } : TsdState).valueOf u k = s.valueOf u k :=
      h.valueOf_other hrelu hret hut hne rfl rfl hcell
    exact hval
  | @release f h' hpc htab hlive hcell =>
    obtain ⟨-, hidx, hsl, hne⟩ := h.frame t f (by rw [hpc]; rfl)
    have hut : u ≠ t := fun hut => hexit hut rfl
    have hother := h.table_ne hrelu hret hut (by rw [hidx]; exact htab)
    have hui : s.threadData u ≠ f.tableIndex := by
      intro hui
      rw [hui, hidx] at hother
      exact hother rfl
    rw [hidx] at hother
    show (match h'.cell (Function.update s.threadTable f.tableIndex 0 (s.threadData u)) with
      | some d => d k
      | none => 0) = s.valueOf u k
    rw [Function.update_of_ne hui, hcell, Function.update_of_ne hother]
    rfl
  | _ => rfl

/-- What the values are after a step: those of the other threads stay, those of the thread are
    as the history says. -/
theorem LawInv.value_step (h : LawInv cfg as s) (hret : s.released t = none)
    (hs : TsdStep cfg s t e out s') (u : Thread) (k : Nat)
    (hu : ¬Started (as ++ [((t, e), out)]) u)
    (hk : (history (as ++ [((t, e), out)])).allocated k = true) :
    s'.valueOf u k = (history (as ++ [((t, e), out)])).value u k := by
  rw [started_append, not_or] at hu
  obtain ⟨hstart, hexit⟩ := hu
  obtain ⟨hpcu, hrelu⟩ := h.outside u hstart
  have hnext : u = t → e ≠ .exitNext := by
    rintro rfl rfl
    -- the step of `ethread_exit` would be one of a thread outside it
    cases hs with
    | move he hpc => rw [hpcu] at hpc; cases hpc
    | runDestructor hpc => rw [hpcu] at hpc; cases hpc
    | releaseNone hpc => rw [hpcu] at hpc; cases hpc
    | release hpc => rw [hpcu] at hpc; cases hpc
  rw [history_append] at hk ⊢
  rw [h.own.valueOf_step hrelu hret hnext hs, KeyHistory.record_value]
  rcases KeyHistory.allocated_of_record hk with hold | ⟨d, n, he, hcreated⟩
  · rw [h.value u k hstart hold]
  · simp only at he hcreated
    simp only [valueAfter, he, hcreated, if_true]

/-! ### The step lemma -/

/-- **Step lemma.**  A step of a thread that has not returned from `ethread_exit` keeps the
    memory in agreement with the history. -/
theorem LawInv.step (h : LawInv cfg as s) (hret : s.released t = none)
    (hs : stepTsd cfg s (t, e) = some (out, s')) : LawInv cfg (as ++ [((t, e), out)]) s' := by
  have hcase := stepTsd_cases h.own hs
  have hkeys := stepTsd_keys hs
  refine ⟨(h.own.step (fun _ i hi => ?_) hcase).1, ?_, hkeys.length h.length,
    fun k => hkeys.free h.length (h.keys k), fun u hu => ?_,
    fun u k => h.value_step hret hcase u k⟩
  · rw [hret] at hi
    cases hi
  · rw [initialised_append, h.init]
    cases hcase with
    | keyNone hi hkey => simpa [TsdEvent.plants] using hi
    | keyNew hi hkey hlive hcell => simpa [TsdEvent.plants] using hi
    | move he hpc hpc' hindex hdata htouched =>
      rcases he with rfl | rfl <;> simp [TsdEvent.plants, TsdState.goto]
    | _ => simp [TsdEvent.plants, TsdState.goto]
  · rw [started_append, not_or] at hu
    obtain ⟨hpcu, hrelu⟩ := h.outside u hu.1
    -- a thread in `ethread_exit` is not `u`
    have hne : s.pc t ≠ .outside → u ≠ t := by
      rintro hpct rfl
      exact hpct hpcu
    have hgoto : u ≠ t → ∀ (s₁ : TsdState) (pc : ExitPc), (s₁.goto t pc).pc u = s₁.pc u := by
      intro hut s₁ pc
      simp [TsdState.goto, Function.update_of_ne hut]
    cases hcase with
    | setNew hfree htab hi hslot hanswer hlive hcell =>
      refine ⟨hpcu, ?_⟩
      by_cases hut : u = t
      · simp [hut]
      · simpa [Function.update_of_ne hut] using hrelu
    | exitScan hpc htab =>
      have hut : u ≠ t := fun hut => hu.2 ⟨hut.symm, rfl⟩
      exact ⟨(hgoto hut _ _).trans hpcu, hrelu⟩
    | move he hpc hpc' hindex hdata htouched =>
      have hut : u ≠ t := hne fun hout => by
        rw [hout] at hpc
        cases hpc
      exact ⟨(hgoto hut _ _).trans hpcu, hrelu⟩
    | runDestructor hpc hlive hd hcell =>
      have hut : u ≠ t := hne (by simp [hpc])
      exact ⟨(hgoto hut _ _).trans hpcu, hrelu⟩
    | releaseNone hpc htab =>
      have hut : u ≠ t := hne (by simp [hpc])
      exact ⟨(hgoto hut _ _).trans hpcu, hrelu⟩
    | release hpc htab hlive hcell =>
      have hut : u ≠ t := hne (by simp [hpc])
      exact ⟨(hgoto hut _ _).trans hpcu, by simpa [Function.update_of_ne hut] using hrelu⟩
    | _ => exact ⟨hpcu, hrelu⟩

/-- **Run lemma.**  The memory agrees with the history of every run in which no thread calls the
    layer after its table has gone. -/
theorem lawInv_run (h : ((tsdSystem cfg).restrict NotReturned).Run as s) : LawInv cfg as s := by
  refine h.invariant_trace (I := LawInv cfg) ?_ ?_
  · rintro s rfl
    exact lawInv_init cfg
  · rintro as s ⟨⟨t, e⟩, out⟩ s' - ih ⟨hs, hret⟩
    exact ih.step hret hs

/-- Inside the map, `ethread_setspecific` and `ethread_getspecific` see the bit that
    `ethread_key_create` sees. -/
theorem TsdState.keyFree_eq (hinit : s.dataIndex ≤ cfg.dataMax)
    (hdiv : k / 32 < s.threadKey.length) : s.keyFree cfg k = (s.keyMap cfg).free k := by
  have hmap : s.keyMap cfg = s.threadKey := if_neg (Nat.not_lt.mpr hinit)
  have hword : ∀ w, s.threadKey.getD (k / 32) w = s.threadKey.getD (k / 32) 0 := by
    intro w
    simp [List.getD_eq_getElem?_getD, List.getElem?_eq_getElem hdiv]
  rw [TsdState.keyFree, TsdState.keyWord, bitSet_eq, hword, hmap]
  rfl

/-- A key of the map is free as far as `ethread_setspecific` and `ethread_getspecific` can see
    when it is not allocated. -/
theorem LawInv.keyFree_eq (h : LawInv cfg as s) (hinit : Initialised as) (hk : k < cfg.mapSize) :
    s.keyFree cfg k = !(history as).allocated k := by
  have hdiv : k / 32 < s.threadKey.length := by
    rw [h.length]
    exact Nat.div_lt_of_lt_mul hk
  rw [TsdState.keyFree_eq (h.init.mp hinit) hdiv, h.keys k, decide_eq_true hk, Bool.true_and]

/-- **The law of thread-specific data.**  In a run in which threads do nothing after
    `ethread_exit` has freed their table, a thread that has not started `ethread_exit` reads
    under every allocated key what it stored there last since the key was created, or `NULL`;
    and a key that is not allocated can be neither set nor read. -/
theorem thread_specific_data (h : ((tsdSystem cfg).restrict NotReturned).Run as s)
    (hinit : Initialised as) (ht : ¬Started as t) (hk : k < cfg.mapSize) :
    ((history as).allocated k = true → ∃ touched,
      stepTsd cfg s (t, .getspecific k)
        = some (⟨.ptr ((history as).value t k), touched⟩, s)) ∧
    ((history as).allocated k = false →
      stepTsd cfg s (t, .getspecific k) = some (⟨.ptr 0, []⟩, s) ∧
      ∀ p added answer, stepTsd cfg s (t, .setspecific k p added answer)
        = some (⟨.int (some .EINVAL), []⟩, s)) := by
  have hinv := lawInv_run h
  obtain ⟨hpc, -⟩ := hinv.outside t ht
  have hfree := hinv.keyFree_eq hinit hk
  refine ⟨fun halloc => ?_, fun halloc => ⟨?_, fun p added answer => ?_⟩⟩
  · rw [halloc, Bool.not_true] at hfree
    have hkeys : k < cfg.keysMax :=
      Nat.lt_of_lt_of_le hk (Nat.mul_div_le cfg.keysMax 32)
    obtain ⟨out, s', hs⟩ := hinv.own.getspecific_defined (t := t) hkeys (hinv.init.mp hinit)
    have hstep : stepTsd cfg s (t, .getspecific k) = some (out, s') := by
      simp [stepTsd, hpc, ExitPc.mayCall, hs]
    rw [hstep]
    rw [← hinv.value t k ht halloc]
    cases getspecific_cases hs with
    | getFree htrue => rw [hfree] at htrue; cases htrue
    | getNone _ htab => exact ⟨_, by rw [TsdState.valueOf_none htab]⟩
    | getOwn _ htab hd => exact ⟨_, by rw [TsdState.valueOf, hd]⟩
    | move he => rcases he with he | he <;> cases he
  · rw [halloc, Bool.not_false] at hfree
    simp [stepTsd, hpc, ExitPc.mayCall, getspecific, hfree]
  · rw [halloc, Bool.not_false] at hfree
    simp [stepTsd, hpc, ExitPc.mayCall, setspecific, hfree]

/-- Thread 1 stores under key 0 and under key 1 and exits; thread 2 takes its slot, key 0 is
    deleted and created again, and thread 2 stores under key 1. -/
def keyReuse : List (Thread × TsdEvent) :=
  [(1, .keyCreate 0 0), (1, .keyCreate 0 0), (1, .setspecific 0 5 true 8),
    (1, .setspecific 1 6 true 0), (1, .exitStart)]
    ++ List.replicate 130 (1, .exitNext)
    ++ [(2, .setspecific 0 7 true 16), (3, .keyDelete 0), (3, .keyCreate 0 0),
      (2, .setspecific 1 9 true 0)]

/-- What the witness of the law reads off the history: whether a key was created and thread 2
    started to exit, and keys 0, 1 and 2. -/
def keyReuseFacts (as : List ((Thread × TsdEvent) × TsdOut)) :
    Bool × Bool × List Bool × List Ptr :=
  (as.any fun b => b.1.2.plants, as.any fun b => b.1 == (2, .exitStart),
    [0, 1, 2].map (history as).allocated, [0, 1].map ((history as).value 2))

/-- A key is deleted and created again: its old values are gone, for the thread that stored them
    too. -/
theorem thread_specific_data_keyReuse :
    ∃ os s, LTS.exec (LTS.guard (stepTsd defaultConfig) NotReturned) keyReuse
        (.init defaultConfig) = some (os, s) ∧
      (∃ touched, stepTsd defaultConfig s (2, .getspecific 0) = some (⟨.ptr 0, touched⟩, s)) ∧
      (∃ touched, stepTsd defaultConfig s (2, .getspecific 1) = some (⟨.ptr 9, touched⟩, s)) ∧
      stepTsd defaultConfig s (2, .getspecific 2) = some (⟨.ptr 0, []⟩, s) := by
  have hout : (LTS.exec (LTS.guard (stepTsd defaultConfig) NotReturned) keyReuse
      (.init defaultConfig)).map (fun x => keyReuseFacts (keyReuse.zip x.1))
      = some (true, false, [true, true, false], [0, 9]) := by decide +kernel
  obtain ⟨⟨os, s⟩, hex, hfacts⟩ := Option.map_eq_some_iff.mp hout
  simp only [keyReuseFacts, List.map_cons, List.map_nil, Prod.mk.injEq, List.cons.injEq,
    and_true] at hfacts
  obtain ⟨hinit, hstart, ⟨h₀, h₁, h₂⟩, hv₀, hv₁⟩ := hfacts
  have hrun := LTS.Run.exec_restrict (.init rfl) hex
  have hinit' : Initialised (keyReuse.zip os) := by
    simpa [Initialised, List.any_eq_true] using hinit
  have hstart' : ¬Started (keyReuse.zip os) 2 := by
    rintro ⟨b, hb, hbe⟩
    exact absurd (List.any_eq_false.mp hstart b hb) (by simp [hbe])
  have hlaw := fun k hk => thread_specific_data (k := k) hrun hinit' hstart' hk
  refine ⟨os, s, hex, ?_, ?_, ?_⟩
  · have hread := (hlaw 0 (by decide)).1 h₀
    rwa [List.nil_append, hv₀] at hread
  · have hread := (hlaw 1 (by decide)).1 h₁
    rwa [List.nil_append, hv₁] at hread
  · exact ((hlaw 2 (by decide)).2 h₂).1

end Ecos.Ethread
