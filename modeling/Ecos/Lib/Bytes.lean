import Mathlib.Algebra.Ring.Int.Defs
import Mathlib.Algebra.Ring.Nat
import Mathlib.Data.List.GetD
import Mathlib.Data.List.Basic

namespace Ecos.Lib

/-!
# Sequences under a cursor

A store addressed by offset is a function `Nat → α`; a file is the list of its first `n`
values.  This file relates the two:

* `overwrite f o d` — the store after `d` was written at offset `o`, and its composition
  law `overwrite_append`: writing in pieces is writing at once;
* `slice f o n` — the `n` values from offset `o`, and `slice_append`;
* `writeAt z l p d` — the list after `d` was written at `p`, a gap before `p` filled with
  `z`; `slice_overwrite` says that this is what filling the gap and writing does to a store;
* `scatter ns d` — the pieces of `d` that fill buffers of the lengths `ns` one after the
  other.
-/

universe u

variable {α : Type u}

/-! ### Writing at an offset -/

/-- The store `f` after the values `d` were written at offset `o`; a store is a function of the
    offset. -/
def overwrite (f : Nat → α) (o : Nat) (d : List α) (k : Nat) : α :=
  if o ≤ k then d.getD (k - o) (f k) else f k

/-- Writing nothing changes nothing. -/
@[simp] theorem overwrite_nil (f : Nat → α) (o : Nat) : overwrite f o [] = f := by
  ext k
  simp [overwrite]

/-- What lies before the written range is unchanged, however much is written. -/
theorem overwrite_of_lt (f : Nat → α) (d : List α) {o k : Nat} (h : k < o) :
    overwrite f o d k = f k := by
  rw [overwrite, if_neg (by omega)]

/-- What lies behind the written range is unchanged, from its last value on. -/
theorem overwrite_of_ge (f : Nat → α) {d : List α} {o k : Nat} (h : o + d.length ≤ k) :
    overwrite f o d k = f k := by
  rw [overwrite, if_pos (by omega)]
  apply List.getD_eq_default
  omega

/-- The written range holds what was written. -/
theorem overwrite_of_mem (f : Nat → α) {d : List α} {o k : Nat} (h : o ≤ k)
    (h' : k - o < d.length) : overwrite f o d k = d[k - o] := by
  rw [overwrite, if_pos h]
  exact List.getD_eq_getElem _ _ h'

/-- A place depends on what was there before only when it is not written. -/
theorem overwrite_congr {f g : Nat → α} (o : Nat) (d : List α) {k : Nat}
    (h : k < o ∨ o + d.length ≤ k → f k = g k) : overwrite f o d k = overwrite g o d k := by
  by_cases hk : k < o ∨ o + d.length ≤ k
  · unfold overwrite
    rw [h hk]
  · have hin : k - o < d.length := by omega
    rw [overwrite_of_mem _ (by omega) hin, overwrite_of_mem _ (by omega) hin]

/-- **Composition.**  Writing in two pieces, one behind the other, is writing at once. -/
theorem overwrite_append (f : Nat → α) (o : Nat) (d₁ d₂ : List α) :
    overwrite (overwrite f o d₁) (o + d₁.length) d₂ = overwrite f o (d₁ ++ d₂) := by
  ext k
  rcases Nat.lt_or_ge k o with hlt | hge
  · rw [overwrite_of_lt _ _ (by omega), overwrite_of_lt _ _ hlt, overwrite_of_lt _ _ hlt]
  rcases Nat.lt_or_ge (k - o) d₁.length with h₁ | h₁
  · -- in the first piece
    have happ : k - o < (d₁ ++ d₂).length := by
      rw [List.length_append]
      omega
    rw [overwrite_of_lt _ _ (by omega), overwrite_of_mem _ hge h₁, overwrite_of_mem _ hge happ,
      List.getElem_append_left h₁]
  rcases Nat.lt_or_ge (k - (o + d₁.length)) d₂.length with h₂ | h₂
  · -- in the second piece
    have happ : k - o < (d₁ ++ d₂).length := by
      rw [List.length_append]
      omega
    rw [overwrite_of_mem _ (by omega) h₂, overwrite_of_mem _ hge happ,
      List.getElem_append_right h₁]
    congr 1
    omega
  · have hlen : o + (d₁ ++ d₂).length ≤ k := by
      rw [List.length_append]
      omega
    rw [overwrite_of_ge _ (by omega), overwrite_of_ge _ (by omega), overwrite_of_ge _ hlen]

/-! ### Reading at an offset -/

/-- The `n` values of the store from offset `o`. -/
def slice (f : Nat → α) (o n : Nat) : List α := (List.range n).map fun k => f (o + k)

/-- A slice has as many values as were asked for. -/
@[simp] theorem length_slice (f : Nat → α) (o n : Nat) : (slice f o n).length = n := by
  simp [slice]

/-- A slice of no values is empty. -/
@[simp] theorem slice_zero (f : Nat → α) (o : Nat) : slice f o 0 = [] := rfl

/-- Value `k` of a slice is the one of the store at its offset. -/
@[simp] theorem getElem_slice (f : Nat → α) {o n k : Nat} (h : k < (slice f o n).length) :
    (slice f o n)[k] = f (o + k) := by
  simp [slice]

/-- **Composition.**  Reading in two pieces, one behind the other, is reading at once. -/
theorem slice_append (f : Nat → α) (o m n : Nat) :
    slice f o m ++ slice f (o + m) n = slice f o (m + n) := by
  apply List.ext_getElem
  · simp
  · intro k _ hk
    rcases Nat.lt_or_ge k m with hlt | hge
    · rw [List.getElem_append_left (by simpa using hlt)]
      simp
    · rw [List.getElem_append_right (by simpa using hge)]
      simp only [getElem_slice, length_slice]
      congr 1
      omega

/-- A range of the list of the first `n` values is a slice of the store. -/
theorem take_drop_slice (f : Nat → α) (n p m : Nat) :
    ((slice f 0 n).drop p).take m = slice f p (min m (n - p)) := by
  apply List.ext_getElem
  · simp
  · intro k _ hk
    simp

/-! ### Lists as files -/

/-- The list `l` after `d` was written at position `p`: a gap between the end of the list and
    `p` is filled with `z`. -/
def writeAt (z : α) (l : List α) (p : Nat) (d : List α) : List α :=
  (l ++ List.replicate (p - l.length) z).take p ++ d ++ l.drop (p + d.length)

/-- Writing grows the list to the end of what was written, and never shrinks it. -/
@[simp] theorem length_writeAt (z : α) (l : List α) (p : Nat) (d : List α) :
    (writeAt z l p d).length = max l.length (p + d.length) := by
  simp only [writeAt, List.length_append, List.length_take, List.length_replicate,
    List.length_drop]
  omega

/-- **Filling the gap and writing.**  On the first values of a store, filling the gap behind
    the first `n` values and then writing `d` at `p` is `writeAt`. -/
theorem slice_overwrite (z : α) (f : Nat → α) (n p : Nat) (d : List α) :
    slice (overwrite (overwrite f n (List.replicate (p - n) z)) p d) 0 (max n (p + d.length))
      = writeAt z (slice f 0 n) p d := by
  have hlen := length_writeAt z (slice f 0 n) p d
  rw [writeAt] at hlen ⊢
  apply List.ext_getElem
  · rw [hlen]
    simp
  intro k hk _
  rw [length_slice] at hk
  rw [getElem_slice, Nat.zero_add]
  rcases Nat.lt_or_ge k p with hlt | hge
  · -- before `p`: an old value or one of the gap
    rw [overwrite_of_lt _ _ hlt, List.getElem_append_left (by simp; omega),
      List.getElem_append_left (by simp; omega), List.getElem_take]
    rcases Nat.lt_or_ge k n with hold | hgap
    · rw [overwrite_of_lt _ _ hold, List.getElem_append_left (by simpa using hold)]
      simp
    · rw [overwrite_of_mem _ hgap (by simp; omega),
        List.getElem_append_right (by simpa using hgap)]
      simp
  rcases Nat.lt_or_ge (k - p) d.length with hin | hout
  · -- in the written range
    rw [overwrite_of_mem _ hge hin, List.getElem_append_left (by simp; omega),
      List.getElem_append_right (by simp; omega)]
    congr 1
    simp
    omega
  · -- behind it: an old value
    rw [overwrite_of_ge _ (by omega), overwrite_of_lt _ _ (by omega),
      List.getElem_append_right (by simp; omega)]
    simp only [List.getElem_drop, getElem_slice]
    congr 1
    simp
    omega

/-- **Writing again.**  A write of `d` at `p` that went wrong within its own range, and within
    the gap that it had to fill, does not show once `d` is written at `p` again. -/
theorem writeAt_again (z : α) {f f' : Nat → α} {n n' p : Nat} (d : List α)
    (hframe : ∀ k < n, k < p ∨ p + d.length ≤ k → f' k = f k) (hn : n ≤ n')
    (hn' : n' ≤ max n (p + d.length)) (hgap : ∀ k, n ≤ k → k < n' → k < p → f' k = z) :
    writeAt z (slice f' 0 n') p d = writeAt z (slice f 0 n) p d := by
  rw [← slice_overwrite, ← slice_overwrite]
  have hmax : max n' (p + d.length) = max n (p + d.length) := by omega
  apply List.ext_getElem
  · rw [length_slice, length_slice, hmax]
  intro k hk _
  rw [length_slice, hmax] at hk
  rw [getElem_slice, getElem_slice, Nat.zero_add]
  apply overwrite_congr
  intro hout
  rcases Nat.lt_or_ge k n with hold | hnew
  · -- an old value
    rw [overwrite_of_lt _ _ hold, overwrite_of_lt _ _ (by omega), hframe k hold hout]
  · -- in the gap, filled by the first or the second write
    have hfill : overwrite f n (List.replicate (p - n) z) k = z := by
      rw [overwrite_of_mem _ hnew (by simp; omega), List.getElem_replicate]
    rw [hfill]
    rcases Nat.lt_or_ge k n' with hfirst | hsecond
    · rw [overwrite_of_lt _ _ hfirst, hgap k hnew hfirst (by omega)]
    · rw [overwrite_of_mem _ hsecond (by simp; omega), List.getElem_replicate]

/-! ### Buffers one after the other -/

/-- The pieces of `d` that fill buffers of the lengths `ns`, one after the other. -/
def scatter : List Nat → List α → List (List α)
  | [], _ => []
  | n :: ns, d => d.take n :: scatter ns (d.drop n)

/-- The first buffer takes what fills it; there is more only when it is full. -/
theorem scatter_cons {n : Nat} {d₁ d₂ : List α} (ns : List Nat) (hle : d₁.length ≤ n)
    (hmore : d₁.length = n ∨ d₂ = []) :
    scatter (n :: ns) (d₁ ++ d₂) = d₁ :: scatter ns d₂ := by
  rcases hmore with rfl | rfl
  · simp [scatter]
  · simp [scatter, List.take_of_length_le hle, List.drop_of_length_le hle]

end Ecos.Lib
