import Ecos.Ethread.KeyMap
import Mathlib.Data.List.GetD

namespace Ecos.Ethread

open Ecos.Lib

/-!
# Keys that are not allocated

What `ethread_setspecific` and `ethread_getspecific` do with a key that no `ethread_key_create`
has returned since it was last deleted.

* `Refused` — `EINVAL` from the one and `NULL` from the other, with no table read or written
  and no question to the kernel under an unassigned `data_index`;
* `EarlyInv` — before the first `ethread_key_create` the map is the zero-initialised one, with
  the bits that `ethread_key_delete` has set;
* `refused_iff` — what decides the calls, in any state;
* `unallocated_keys` — when they refuse a key, in every reached state.
-/

/-- Thread `t` is refused the key `k`, whatever it stores and the kernel and `malloc` answer. -/
def Refused (cfg : EthreadConfig) (s : TsdState) (t : Thread) (k : Nat) : Prop :=
  (∀ p added answer, setspecific cfg s t k p added answer
    = some (⟨.int (some .EINVAL), []⟩, s)) ∧
  getspecific cfg s t k = some (⟨.ptr 0, []⟩, s)

/-- `ethread_key_delete` was called with the key, which sets its bit whether or not it was
    allocated. -/
def Deleted (as : List ((Thread × TsdEvent) × TsdOut)) (k : Nat) : Prop :=
  ∃ b ∈ as, b.1.2 = .keyDelete k

/-- The thread has no table, and there is no slot for one, so that `ethread_setspecific` refuses
    every key. -/
def TsdState.NoSlot (cfg : EthreadConfig) (s : TsdState) (t : Thread) : Prop :=
  s.threadTable (s.threadData t) = 0 ∧ ∀ i ∈ TsdState.slots cfg, s.threadTable i ≠ 0

variable {cfg : EthreadConfig} {s s' : TsdState} {t : Thread} {e : TsdEvent} {out : TsdOut}
  {as : List ((Thread × TsdEvent) × TsdOut)} {k : Nat}

/-! ### What decides the calls -/

/-- A key whose bit is set is refused, by both calls and before the memory is looked at. -/
theorem refused_of_free (hfree : s.keyFree cfg k = true) : Refused cfg s t k := by
  constructor
  · intro p added answer
    rw [setspecific, if_pos hfree]
    rfl
  · rw [getspecific, if_pos hfree]
    rfl

/-- Without a slot for a table `setspecific` fails as if the key were not allocated. -/
theorem refused_of_noSlot (hinit : s.dataIndex ≤ cfg.dataMax) (hslot : s.NoSlot cfg t) :
    Refused cfg s t k := by
  by_cases hfree : s.keyFree cfg k = true
  · exact refused_of_free hfree
  have hget : s.getData cfg t = some (s.threadData t) := if_pos hinit
  constructor
  · intro p added answer
    have hfind : (TsdState.slots cfg).find? (fun i => s.threadTable i = 0) = none := by
      rw [List.find?_eq_none]
      intro i hi
      simpa using hslot.2 i hi
    have hlocal : localTable cfg s t added answer = some (.error .EINVAL, s) := by
      simp [localTable, hget, hslot.1, newTable, hfind]
    simp [setspecific, hfree, hlocal]
  · simp [getspecific, hfree, hget, hslot.1]

/-- Before `data_index` is assigned a key whose bit is clear is not refused: the kernel is asked
    for the word at an index it does not have. -/
theorem not_refused_of_early (hfree : s.keyFree cfg k = false) (hinit : cfg.dataMax < s.dataIndex) :
    ¬Refused cfg s t k := by
  rintro ⟨-, hget⟩
  have hdata : s.getData cfg t = none := if_neg (by omega)
  simp [getspecific, hfree, hdata] at hget

/-- Afterwards it is not refused when the thread has a table or can get one. -/
theorem not_refused_of_slot (hfree : s.keyFree cfg k = false) (hinit : s.dataIndex ≤ cfg.dataMax)
    (hslot : ¬s.NoSlot cfg t) : ¬Refused cfg s t k := by
  rintro ⟨hset, hget⟩
  have hdata : s.getData cfg t = some (s.threadData t) := if_pos hinit
  by_cases htab : s.threadTable (s.threadData t) = 0
  · -- a free slot, and `malloc` fails
    cases hfind : (TsdState.slots cfg).find? (fun i => s.threadTable i = 0) with
    | none =>
      refine hslot ⟨htab, fun i hi => ?_⟩
      simpa using List.find?_eq_none.mp hfind i hi
    | some i =>
      have hcall := hset 0 true 0
      have hmalloc : s.heap.malloc 0 cfg.garbage = none := Heap.malloc_eq_none.mpr (Or.inl rfl)
      have hlocal : localTable cfg s t true 0 = some (.error .ENOMEM,
          { s with registered := Function.update s.registered t (s.registered t + 1) }) := by
        simp [localTable, hdata, htab, newTable, hfind, hmalloc]
      simp [setspecific, hfree, hlocal] at hcall
  · -- `getspecific` reads the table
    rw [getspecific, if_neg (by simp [hfree]), hdata] at hget
    obtain ⟨i, hi, hget⟩ := Option.bind_eq_some_iff.mp hget
    obtain rfl := Option.some.inj hi
    dsimp only at hget
    rw [if_neg htab] at hget
    obtain ⟨v, -, hval⟩ := Option.bind_eq_some_iff.mp hget
    simp at hval

/-- **What decides the calls.**  A key is refused exactly when its bit is set, or the thread has no
    table and cannot get one. -/
theorem refused_iff : Refused cfg s t k ↔
    s.keyFree cfg k = true ∨ (s.dataIndex ≤ cfg.dataMax ∧ s.NoSlot cfg t) := by
  constructor
  · intro hrefused
    cases hfree : s.keyFree cfg k with
    | true => exact Or.inl rfl
    | false =>
      rcases Nat.lt_or_ge cfg.dataMax s.dataIndex with hearly | hinit
      · exact absurd hrefused (not_refused_of_early hfree hearly)
      · by_cases hslot : s.NoSlot cfg t
        · exact Or.inr ⟨hinit, hslot⟩
        · exact absurd hrefused (not_refused_of_slot hfree hinit hslot)
  · rintro (hfree | ⟨hinit, hslot⟩)
    · exact refused_of_free hfree
    · exact refused_of_noSlot hinit hslot

/-! ### The map before the first `ethread_key_create` -/

/-- `data_index` is assigned by the first `ethread_key_create`; until then the bits of the map are
    those that `ethread_key_delete` has set. -/
structure EarlyInv (cfg : EthreadConfig) (as : List ((Thread × TsdEvent) × TsdOut))
    (s : TsdState) : Prop where
  init : Initialised as ↔ s.dataIndex ≤ cfg.dataMax
  early : ¬Initialised as → ∀ k, s.threadKey.free k = true ↔ Deleted as k

/-- A step more in the question if a key was deleted. -/
theorem deleted_append :
    Deleted (as ++ [((t, e), out)]) k ↔ Deleted as k ∨ e = .keyDelete k := by
  simp only [Deleted, List.mem_append, List.mem_singleton, or_and_right, exists_or,
    exists_eq_left]

/-- Initially no data index is assigned, and all the words are zero. -/
theorem earlyInv_init (cfg : EthreadConfig) : EarlyInv cfg [] (.init cfg) := by
  refine ⟨?_, fun _ k => ?_⟩
  · simp [Initialised, TsdState.init]
  · have hzero : (TsdState.init cfg).threadKey.free k = false := by
      rw [FreeMap.free, TsdState.init, List.getD_eq_getElem?_getD, List.getElem?_replicate]
      split
      · exact BitVec.getLsbD_zero
      · exact BitVec.getLsbD_zero
    simp [hzero, Deleted]

/-- After a `key_create` the index is assigned, and the invariant of the time before says nothing
    more. -/
theorem EarlyInv.of_keyCreate {d n : Nat} (hinit : s'.dataIndex ≤ cfg.dataMax) :
    EarlyInv cfg (as ++ [((t, .keyCreate d n), out)]) s' := by
  have hnow : Initialised (as ++ [((t, .keyCreate d n), out)]) :=
    initialised_append.mpr (Or.inr rfl)
  exact ⟨⟨fun _ => hinit, fun _ => hnow⟩, fun hnot => absurd hnow hnot⟩

/-- **Step lemma.**  Before the first `key_create` only a deletion sets a bit. -/
theorem EarlyInv.step (h : EarlyInv cfg as s) (hs : KeyStep cfg s e out s') :
    EarlyInv cfg (as ++ [((t, e), out)]) s' := by
  cases hs with
  | full hret hfull hinit hmap hdtor =>
    exact .of_keyCreate hinit
  | create hret halloc hinit hmap hdtor =>
    exact .of_keyCreate hinit
  | @delete k' _ _ hret hk' hindex hmap hdtor =>
    have hsame : Initialised (as ++ [((t, .keyDelete k'), out)]) ↔ Initialised as := by
      simp [initialised_append, TsdEvent.plants]
    refine ⟨?_, fun hnot k => ?_⟩
    · rw [hsame, hindex]
      exact h.init
    -- before the initialisation exactly the keys that were deleted are free
    · have hlt : k' < 32 * s.threadKey.length := by
        rw [Nat.div_lt_iff_lt_mul (by omega)] at hk'
        omega
      rw [hmap, FreeMap.free_release _ hlt, Bool.or_eq_true, decide_eq_true_eq, deleted_append,
        h.early (fun hi => hnot (hsame.mpr hi)) k]
      simp [eq_comm]
  | other hcreate hdelete hindex hmap hdtor hret =>
    have hplants : e.plants = false := by
      cases e with
      | keyCreate d n => exact absurd rfl (hcreate d n)
      | _ => rfl
    have hsame : Initialised (as ++ [((t, e), out)]) ↔ Initialised as := by
      simp [initialised_append, hplants]
    refine ⟨?_, fun hnot k => ?_⟩
    · rw [hsame, hindex]
      exact h.init
    · rw [hmap, deleted_append, h.early (fun hi => hnot (hsame.mpr hi)) k]
      simp [hdelete k]

/-- **Run lemma.**  Until the first `key_create` the bits that are set are those of deleted keys. -/
theorem earlyInv_run (h : (tsdSystem cfg).Run as s) : EarlyInv cfg as s := by
  refine h.invariant_trace (I := EarlyInv cfg) ?_ ?_
  · rintro s rfl
    exact earlyInv_init cfg
  · rintro as s ⟨⟨t, e⟩, out⟩ s' - ih hs
    exact ih.step (stepTsd_keys hs)

/-! ### Keys that are not allocated -/

/-- The bit of a key of the map that is not allocated: it is set once the keys are initialised, and
    before that by a deletion. -/
theorem keyFree_unallocated (h : (tsdSystem cfg).Run as s) (hk : k < cfg.mapSize)
    (hunalloc : (history as).allocated k = false) :
    s.keyFree cfg k = true ↔ Initialised as ∨ Deleted as k := by
  have hearly := earlyInv_run h
  have hkeys := keyInv_run h
  have hdiv : k / 32 < s.threadKey.length := by
    rw [hkeys.length]
    exact Nat.div_lt_of_lt_mul hk
  by_cases hinit : Initialised as
  · rw [TsdState.keyFree_eq (hearly.init.mp hinit) hdiv, hkeys.keys k, hunalloc]
    simp [hk, hinit]
  · have hbit : s.keyFree cfg k = s.threadKey.free k := by
      rw [TsdState.keyFree, TsdState.keyWord, bitSet_eq, FreeMap.free]
      simp [List.getD_eq_getElem?_getD, List.getElem?_eq_getElem hdiv]
    rw [hbit, hearly.early hinit k]
    simp [hinit]

/-- A key behind the last word of the map has the bit of the memory there. -/
theorem keyFree_beyond (h : (tsdSystem cfg).Run as s) (hk : cfg.mapSize ≤ k) :
    s.keyFree cfg k = bitSet (cfg.beyond (k / 32)) (k % 32) := by
  have hlen : s.threadKey.length ≤ k / 32 := by
    rw [(keyInv_run h).length]
    unfold EthreadConfig.mapSize at hk
    omega
  rw [TsdState.keyFree, TsdState.keyWord, List.getD_eq_default _ _ hlen]

/-- **Keys that are not allocated.**  In every reached state a key below `ETHREAD_KEYS_MAX` that
    is not allocated is refused exactly when

    * it is a key of the map, and `ethread_key_create` was called before, or `ethread_key_delete`
      with this key;
    * or it is none, for `ETHREAD_KEYS_MAX` is no multiple of 32, and the memory behind the map has
      its bit set;
    * or `ethread_key_create` was called before, and the thread has no table and there is no slot
      for one. -/
theorem unallocated_keys (h : (tsdSystem cfg).Run as s)
    (hunalloc : (history as).allocated k = false) (t : Thread) :
    Refused cfg s t k ↔
      (k < cfg.mapSize ∧ (Initialised as ∨ Deleted as k)) ∨
      (cfg.mapSize ≤ k ∧ bitSet (cfg.beyond (k / 32)) (k % 32) = true) ∨
      (Initialised as ∧ s.NoSlot cfg t) := by
  rw [refused_iff, ← (earlyInv_run h).init, ← or_assoc]
  apply or_congr_left
  rcases Nat.lt_or_ge k cfg.mapSize with hin | hout
  · rw [keyFree_unallocated h hin hunalloc]
    simp [hin, Nat.not_le.mpr hin]
  · rw [keyFree_beyond h hout]
    simp [hout, Nat.not_lt.mpr hout]

/-- A key that was created and deleted again is refused, to every thread. -/
theorem unallocated_keys_deleted :
    ∃ os s, LTS.exec (stepTsd defaultConfig) [(1, .keyCreate 0 0), (1, .keyDelete 0)]
        (.init defaultConfig) = some (os, s) ∧ Refused defaultConfig s 2 0 := by
  obtain ⟨s, hex⟩ : ∃ s, LTS.exec (stepTsd defaultConfig)
      [(1, .keyCreate 0 0), (1, .keyDelete 0)] (.init defaultConfig)
        = some ([⟨.key 0, []⟩, ⟨.int none, []⟩], s) := ⟨_, rfl⟩
  have hrun : (tsdSystem defaultConfig).Run _ s := LTS.Run.exec (.init rfl) hex
  refine ⟨_, s, hex, (unallocated_keys hrun rfl 2).mpr (Or.inl ⟨by decide, Or.inl ?_⟩)⟩
  exact ⟨_, List.mem_cons_self, rfl⟩

/-- **Before the first `ethread_key_create`** no key is refused: `ethread_getspecific` asks the
    kernel for the word at an index that was never assigned. -/
theorem early_keys :
    getspecific defaultConfig (.init defaultConfig) 1 0 = none ∧
      ¬∀ as s, (tsdSystem defaultConfig).Run as s → ∀ t k, k < defaultConfig.keysMax →
        (history as).allocated k = false → Refused defaultConfig s t k := by
  refine ⟨by decide, fun hall => ?_⟩
  have hrefused := hall [] _ (.init rfl) 1 0 (by decide) rfl
  exact not_refused_of_early (by decide) (by decide) hrefused

end Ecos.Ethread
