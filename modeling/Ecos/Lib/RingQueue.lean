import Mathlib.Data.List.Range
import Mathlib.Logic.Function.Basic

namespace Ecos.Lib

/-!
# Queues in a ring

A queue whose entries lie in a ring of `n` places.  It is known by the place for the next entry and
by the number of free places; where the oldest entry lies follows from these.

* `arc n start len` — `len` places of the ring, one after the other;
* `RingQueue` — the places, the next one to be filled, and how many are free;
* `RingQueue.entries` — the entries with their places, the oldest one first;
* `entries_push`, `entries_pop` — the operations add at the end and take from the front.
-/

universe u

/-! ### Places of a ring -/

/-- The `len` places of a ring of `n` places from `start` on. -/
def arc (n start len : Nat) : List Nat := (List.range len).map fun i => (start + i) % n

/-- An arc of `len` places has as many, also when it goes round more than once. -/
@[simp] theorem length_arc (n start len : Nat) : (arc n start len).length = len := by
  simp [arc]

/-- The last place of an arc, with the places in front of it. -/
theorem arc_succ (n start len : Nat) :
    arc n start (len + 1) = arc n start len ++ [(start + len) % n] := by
  unfold arc
  rw [List.range_succ, List.map_append]
  rfl

/-- The first place of an arc, with the places behind it. -/
theorem arc_cons (n start len : Nat) :
    arc n start (len + 1) = start % n :: arc n (start + 1) len := by
  unfold arc
  rw [List.range_succ_eq_map, List.map_cons, List.map_map]
  refine congrArg _ (List.map_congr_left fun i _ => ?_)
  show (start + (i + 1)) % n = (start + 1 + i) % n
  congr 1
  omega

/-- Where an arc starts matters only modulo the size of the ring. -/
theorem arc_mod (n start len : Nat) : arc n (start % n) len = arc n start len := by
  refine List.map_congr_left fun i _ => ?_
  exact Nat.mod_add_mod start n i

/-- The places of an arc are those that lie less than `len` behind its start. -/
theorem mem_arc {n start len p : Nat} : p ∈ arc n start len ↔ ∃ i < len, (start + i) % n = p := by
  simp [arc]

/-- Two numbers less than `n` apart have different places. -/
theorem add_mod_ne {n k i j : Nat} (hij : i < j) (hj : j < i + n) :
    (k + i) % n ≠ (k + j) % n := by
  intro heq
  have hzero := Nat.sub_mod_eq_zero_of_mod_eq heq.symm
  rw [Nat.mod_eq_of_lt (by omega)] at hzero
  omega

/-! ### The queue -/

/-- A queue in a ring of `n` places, kept by the place for the next entry and the number of free
    places. -/
structure RingQueue (n : Nat) (α : Type u) where
  /-- What lies in a place. -/
  slot : Nat → α
  /-- The place for the next entry. -/
  next : Nat
  /-- The number of free places. -/
  free : Nat
  next_lt : next < n
  free_le : free ≤ n

namespace RingQueue

variable {n : Nat} {α : Type u} (q : RingQueue n α)

/-- The place of the oldest entry, which lies behind the free places. -/
def first : Nat := (q.next + q.free) % n

/-- The entries with their places, the oldest one first: they end just before the next place. -/
def entries : List (Nat × α) :=
  (arc n (q.next + q.free) (n - q.free)).map fun p => (p, q.slot p)

/-- A queue without entries: all of its places are free. -/
def empty (slot : Nat → α) (hn : 0 < n) : RingQueue n α := ⟨slot, 0, n, hn, Nat.le_refl n⟩

/-- Put an entry into the next place, when one is free. -/
def push (a : α) (_ : q.free ≠ 0) : RingQueue n α where
  slot := Function.update q.slot q.next a
  next := (q.next + 1) % n
  free := q.free - 1
  next_lt := Nat.mod_lt _ (Nat.lt_of_le_of_lt (Nat.zero_le _) q.next_lt)
  free_le := Nat.le_trans (Nat.sub_le _ _) q.free_le

/-- Free the place of the oldest entry, and leave `z` there. -/
def pop (z : α) (h : q.free < n) : RingQueue n α where
  slot := Function.update q.slot q.first z
  next := q.next
  free := q.free + 1
  next_lt := q.next_lt
  free_le := h

/-- There are as many entries as places that are not free. -/
@[simp] theorem length_entries : q.entries.length = n - q.free := by
  simp [entries]

/-- A new queue has no entries, whatever lies in its places. -/
@[simp] theorem entries_empty (slot : Nat → α) (hn : 0 < n) : (empty slot hn).entries = [] := by
  apply List.length_eq_zero_iff.mp
  rw [length_entries]
  exact Nat.sub_self n

/-- **A new entry** comes last, and those before it stay as they are. -/
theorem entries_push (a : α) (h : q.free ≠ 0) :
    (q.push a h).entries = q.entries ++ [(q.next, a)] := by
  have hfree := q.free_le
  have hnext := q.next_lt
  have hlen : n - (q.free - 1) = n - q.free + 1 := by omega
  have hstart : arc n ((q.next + 1) % n + (q.free - 1)) (n - q.free + 1)
      = arc n (q.next + q.free) (n - q.free + 1) := by
    rw [← arc_mod, Nat.mod_add_mod, arc_mod]
    congr 1
    omega
  -- the place behind the last entry is the next one
  have hlast : (q.next + q.free + (n - q.free)) % n = q.next := by
    have hsum : q.next + q.free + (n - q.free) = q.next + n := by omega
    rw [hsum, Nat.add_mod_right, Nat.mod_eq_of_lt hnext]
  show (arc n ((q.next + 1) % n + (q.free - 1)) (n - (q.free - 1))).map _ = _
  rw [hlen, hstart, arc_succ, List.map_append, hlast]
  show List.map _ _ ++ [(q.next, Function.update q.slot q.next a q.next)] = _
  rw [Function.update_self]
  refine congrArg (· ++ [(q.next, a)]) (List.map_congr_left fun p hp => ?_)
  -- and none of the others
  obtain ⟨i, hi, rfl⟩ := mem_arc.mp hp
  have hne : (q.next + (q.free + i)) % n ≠ q.next := by
    have hzero : (q.next + 0) % n = q.next := Nat.mod_eq_of_lt hnext
    intro heq
    exact add_mod_ne (k := q.next) (i := 0) (j := q.free + i) (by omega) (by omega)
      (hzero.trans heq.symm)
  rw [← Nat.add_assoc] at hne
  show (_, Function.update q.slot q.next a _) = _
  rw [Function.update_of_ne hne]

/-- **The oldest entry** comes first, and `pop` leaves the others. -/
theorem entries_pop (z : α) (h : q.free < n) :
    q.entries = (q.first, q.slot q.first) :: (q.pop z h).entries := by
  have hlen : n - q.free = n - (q.free + 1) + 1 := by omega
  have hentries : q.entries = (q.first, q.slot q.first) ::
      (arc n (q.next + (q.free + 1)) (n - (q.free + 1))).map fun p => (p, q.slot p) := by
    unfold entries
    rw [hlen, arc_cons, List.map_cons]
    rfl
  rw [hentries]
  refine congrArg _ (List.map_congr_left fun p hp => ?_)
  -- the places of the others are different ones
  obtain ⟨i, hi, rfl⟩ := mem_arc.mp hp
  have hne : (q.next + (q.free + 1) + i) % n ≠ q.first := by
    have hlater := add_mod_ne (n := n) (k := q.next + q.free) (i := 0) (j := 1 + i) (by omega)
      (by omega)
    intro heq
    apply hlater
    rw [Nat.add_zero, show q.next + q.free + (1 + i) = q.next + (q.free + 1) + i by omega]
    exact heq.symm
  show _ = (_, Function.update q.slot q.first z _)
  rw [Function.update_of_ne hne]

end RingQueue

end Ecos.Lib
