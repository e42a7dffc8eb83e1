import Mathlib.Data.List.Basic

namespace Ecos.Lib

/-!
# Bit maps of free numbers

Numbers handed out and taken back through an array of `w`-bit words, one bit a number: bit
`k % w` of word `k / w` is set while `k` is free.

* `bitSet`, `lsBit` — testing a bit, and the least significant set bit;
* `FreeMap.alloc`, `FreeMap.release`, `FreeMap.full` — the operations;
* `FreeMap.free` — the set of free numbers a map stands for, and what the operations do to it.
-/

variable {w : Nat}

/-- `x & 1 << j`, as a condition in C. -/
def bitSet (x : BitVec w) (j : Nat) : Bool := x &&& (1#w <<< j) ≠ 0

/-- The condition asks for bit `j`. -/
theorem bitSet_eq (x : BitVec w) (j : Nat) : bitSet x j = x.getLsbD j := by
  have htwo : (1#w <<< j) = BitVec.twoPow w j := rfl
  rw [bitSet, htwo, BitVec.and_twoPow]
  cases hx : x.getLsbD j with
  | false => simp
  | true =>
    have hj : j < w := BitVec.lt_of_getLsbD hx
    have hne : BitVec.twoPow w j ≠ 0#w := by
      intro hzero
      have hbit := congrArg (fun y => y.getLsbD j) hzero
      simp [hj] at hbit
    simpa using hne

/-- The index of the least significant set bit, as `HAL_LSBIT_INDEX` computes it; 0 for a word
    without one. -/
def lsBit (x : BitVec w) : Nat := ((List.range w).find? fun j => x.getLsbD j).getD 0

/-- A word that is not zero has a set bit, and `lsBit` finds one. -/
theorem lsBit_spec {x : BitVec w} (hx : x ≠ 0) : lsBit x < w ∧ x.getLsbD (lsBit x) = true := by
  cases hfind : (List.range w).find? fun j => x.getLsbD j with
  | none =>
    exfalso
    refine hx (BitVec.eq_of_getLsbD_eq fun j hj => ?_)
    have hclear := List.find?_eq_none.mp hfind j (List.mem_range.mpr hj)
    simpa using hclear
  | some j =>
    have hlt := List.mem_range.mp (List.mem_of_find?_eq_some hfind)
    have hbit := List.find?_some hfind
    simpa [lsBit, hfind] using ⟨hlt, hbit⟩

/-- No bit below the least significant set bit is set, so that the search for a free number is
    exact. -/
theorem lsBit_least {x : BitVec w} (hx : x ≠ 0) {j : Nat} (hj : j < lsBit x) :
    x.getLsbD j = false := by
  cases hfind : (List.range w).find? fun j => x.getLsbD j with
  | none =>
    exfalso
    refine hx (BitVec.eq_of_getLsbD_eq fun i hi => ?_)
    have hclear := List.find?_eq_none.mp hfind i (List.mem_range.mpr hi)
    simpa using hclear
  | some b =>
    obtain ⟨-, -, hbefore⟩ := List.find?_range_eq_some.mp hfind
    have hb : lsBit x = b := by rw [lsBit, hfind, Option.getD_some]
    simpa using hbefore j (by omega)

/-- The words of a map, in which a set bit stands for a free number. -/
abbrev FreeMap (w : Nat) := List (BitVec w)

namespace FreeMap

/-- Is number `k` free? Behind the last word no number is. -/
def free (m : FreeMap w) (k : Nat) : Bool := (m.getD (k / w) 0).getLsbD (k % w)

/-- The map of `n` words in which every number is free. -/
def full (w n : Nat) : FreeMap w := List.replicate n (BitVec.allOnes w)

/-- Hand out the first free number: the first word with a bit, and its lowest one. -/
def alloc (m : FreeMap w) : Option (Nat × FreeMap w) :=
  match m.findIdx? (· ≠ 0) with
  | none => none
  | some i =>
    let k := lsBit (m.getD i 0)
    some (k + i * w, m.modify i fun x => x &&& ~~~(1#w <<< k))

/-- Take back number `k`, whether or not it was handed out. -/
def release (m : FreeMap w) (k : Nat) : FreeMap w :=
  m.modify (k / w) fun x => x ||| (1#w <<< (k % w))

/-- Taking a number back does not change the number of words. -/
@[simp] theorem length_release (m : FreeMap w) (k : Nat) : (m.release k).length = m.length := by
  simp [release]

/-- Only numbers below the size of the map are free, so that only those are handed out. -/
theorem lt_of_free {m : FreeMap w} {k : Nat} (h : m.free k = true) : k < w * m.length := by
  have hbit := BitVec.lt_of_getLsbD h
  have hpos : 0 < w := by omega
  by_contra hge
  have hlen : m.length ≤ k / w := (Nat.le_div_iff_mul_le hpos).mpr (by rw [Nat.mul_comm]; omega)
  rw [free, List.getD_eq_getElem?_getD, List.getElem?_eq_none hlen] at h
  simp at h

/-- The words of a map with word `i` rewritten: the others are as they were. -/
theorem getD_modify (m : FreeMap w) (i j : Nat) (f : BitVec w → BitVec w) :
    (m.modify i f).getD j 0
      = if i = j ∧ j < m.length then f (m.getD j 0) else m.getD j 0 := by
  rw [List.getD_eq_getElem?_getD, List.getD_eq_getElem?_getD, List.getElem?_modify]
  by_cases hij : i = j
  · by_cases hj : j < m.length
    · simp [hij, hj]
    · simp [hij, hj]
  · simp [hij]

/-- Two numbers with the same word and bit are equal, so that a bit stands for one number. -/
theorem eq_iff_div_mod {k j : Nat} : k = j ↔ k / w = j / w ∧ k % w = j % w := by
  constructor
  · rintro rfl
    exact ⟨rfl, rfl⟩
  · rintro ⟨hdiv, hmod⟩
    rw [← Nat.div_add_mod k w, ← Nat.div_add_mod j w, hdiv, hmod]

/-- In a full map the numbers below its size are free. -/
theorem free_full (n k : Nat) (hw : 0 < w) : (full w n).free k = decide (k < w * n) := by
  have hmod : k % w < w := Nat.mod_lt _ hw
  by_cases hk : k < w * n
  · have hdiv : k / w < n := Nat.div_lt_of_lt_mul hk
    simp [free, full, List.getD_eq_getElem?_getD, hdiv, hmod, hk]
  · have hdiv : ¬k / w < n := fun h => hk (by rwa [Nat.div_lt_iff_lt_mul hw, Nat.mul_comm] at h)
    simp [free, full, List.getD_eq_getElem?_getD, hdiv, hk]

/-- Releasing a number frees it and no other. -/
theorem free_release (m : FreeMap w) {k : Nat} (hk : k < w * m.length) (j : Nat) :
    (m.release k).free j = (m.free j || decide (j = k)) := by
  have hw : 0 < w := Nat.pos_of_mul_pos_right (Nat.lt_of_le_of_lt (Nat.zero_le k) hk)
  have hmod : j % w < w := Nat.mod_lt _ hw
  have hdiv : k / w < m.length := Nat.div_lt_of_lt_mul hk
  rw [free, release, getD_modify]
  by_cases hd : k / w = j / w
  · rw [if_pos ⟨hd, hd ▸ hdiv⟩, BitVec.getLsbD_or]
    have hbit : (1#w <<< (k % w)).getLsbD (j % w) = decide (j = k) := by
      rw [show (1#w <<< (k % w)) = BitVec.twoPow w (k % w) from rfl, BitVec.getLsbD_twoPow]
      have heq : (j = k) ↔ k % w = j % w := by
        rw [eq_iff_div_mod (w := w)]
        exact ⟨fun h => h.2.symm, fun h => ⟨hd.symm, h.symm⟩⟩
      have hkmod : k % w < w := Nat.mod_lt _ hw
      simp [hkmod, heq]
    rw [hbit, free]
  · have hne : j ≠ k := fun h => hd (by rw [h])
    rw [if_neg fun h => hd h.1]
    simp [hne, free]

/-- **Allocation.**  The number handed out was free, and is the only one no longer free. -/
theorem alloc_spec {m m' : FreeMap w} {k : Nat} (h : m.alloc = some (k, m')) :
    k < w * m.length ∧ m.free k = true ∧ m'.length = m.length ∧
      ∀ j, m'.free j = (m.free j && decide (j ≠ k)) := by
  unfold alloc at h
  split at h
  · cases h
  rename_i i hfind
  obtain ⟨rfl, rfl⟩ := Prod.mk.inj (Option.some.inj h)
  obtain ⟨hi, hne, -⟩ := List.findIdx?_eq_some_iff_getElem.mp hfind
  have hget : m.getD i 0 = m[i] := by
    rw [List.getD_eq_getElem?_getD, List.getElem?_eq_getElem hi, Option.getD_some]
  obtain ⟨hlt, hbit⟩ := lsBit_spec (x := m[i]) (by simpa using hne)
  rw [hget]
  generalize lsBit m[i] = b at hlt hbit
  -- the word and the bit of the key that was found
  have hw : 0 < w := by omega
  have hdiv : (b + i * w) / w = i := by
    rw [Nat.add_mul_div_right _ _ hw, Nat.div_eq_of_lt hlt, Nat.zero_add]
  have hmod : (b + i * w) % w = b := by rw [Nat.add_mul_mod_self_right, Nat.mod_eq_of_lt hlt]
  have hfree : m.free (b + i * w) = true := by rw [free, hdiv, hmod, hget, hbit]
  refine ⟨lt_of_free hfree, hfree, by simp, fun j => ?_⟩
  have hjmod : j % w < w := Nat.mod_lt _ hw
  rw [free, getD_modify]
  -- a key of the same word, or of another one
  by_cases hd : i = j / w
  · subst hd
    rw [if_pos ⟨rfl, hi⟩, BitVec.getLsbD_and, BitVec.getLsbD_not,
      show (1#w <<< b) = BitVec.twoPow w b from rfl, BitVec.getLsbD_twoPow]
    have heq : (j ≠ b + j / w * w) ↔ b ≠ j % w := by
      rw [not_iff_not, eq_iff_div_mod (w := w), hdiv, hmod]
      exact ⟨fun h => h.2.symm, fun h => ⟨rfl, h.symm⟩⟩
    simp only [heq, hjmod, decide_true, Bool.true_and]
    rw [free]
    congr 1
    by_cases hb : b = j % w
    · simp [hb, hjmod]
    · simp [hb]
  · have hne' : j ≠ b + i * w := fun h => hd (by rw [h, hdiv])
    rw [if_neg fun h => hd h.1]
    simp [hne', free]

/-- **First fit.**  No number below the one handed out is free. -/
theorem alloc_least {m m' : FreeMap w} {k : Nat} (h : m.alloc = some (k, m')) {j : Nat}
    (hj : j < k) : m.free j = false := by
  unfold alloc at h
  split at h
  · cases h
  rename_i i hfind
  obtain ⟨rfl, -⟩ := Prod.mk.inj (Option.some.inj h)
  obtain ⟨hi, hne, hbefore⟩ := List.findIdx?_eq_some_iff_getElem.mp hfind
  have hget : m.getD i 0 = m[i] := by
    rw [List.getD_eq_getElem?_getD, List.getElem?_eq_getElem hi, Option.getD_some]
  rw [hget] at hj
  have hne' : m[i] ≠ 0 := by simpa using hne
  obtain ⟨hlt, -⟩ := lsBit_spec hne'
  have hw : 0 < w := by omega
  have hword : j / w ≤ i := by
    have hsucc : j < (i + 1) * w := by rw [Nat.succ_mul]; omega
    have hdiv := (Nat.div_lt_iff_lt_mul hw).mpr hsucc
    omega
  rcases Nat.lt_or_eq_of_le hword with hlt' | heq
  · -- an earlier word: it is zero
    have hlen : j / w < m.length := by omega
    have hzero : m[j / w] = 0 := by simpa using hbefore (j / w) hlt'
    rw [free, List.getD_eq_getElem?_getD, List.getElem?_eq_getElem hlen, Option.getD_some, hzero]
    simp
  · -- the same word: a lower bit
    have hmod : j % w < lsBit m[i] := by
      have hdm := Nat.div_add_mod j w
      rw [heq, Nat.mul_comm] at hdm
      omega
    rw [free, heq, hget]
    exact lsBit_least hne' hmod

/-- **Exhaustion.**  Nothing is handed out exactly when no number is free. -/
theorem alloc_eq_none {m : FreeMap w} : m.alloc = none ↔ ∀ k, m.free k = false := by
  constructor
  · intro h k
    unfold alloc at h
    split at h
    · rename_i hfind
      have hzero : m.getD (k / w) 0 = 0 := by
        rw [List.getD_eq_getElem?_getD]
        cases hget : m[k / w]? with
        | none => rfl
        | some x =>
          have hx := List.findIdx?_eq_none_iff.mp hfind x (List.mem_of_getElem? hget)
          simpa using hx
      rw [free, hzero]
      simp
    · cases h
  · intro h
    cases halloc : m.alloc with
    | none => rfl
    | some km =>
      obtain ⟨k, m'⟩ := km
      have hfree := (alloc_spec halloc).2.1
      rw [h k] at hfree
      cases hfree

end FreeMap

end Ecos.Lib
