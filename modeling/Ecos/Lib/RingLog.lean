import Ecos.Lib.Bytes

namespace Ecos.Lib

/-!
# Records in a ring of memory

Records of different sizes that are stored one behind the other in a ring of `L` places.  A record
is never split: one that starts before the end of the ring runs on behind the end, into memory that
belongs to no place of the ring.

A position counts all places from the first record ever stored on; the record at position `p` lies
at `p % L`.

* `RecordFormat` — the bytes of a record, and how far it moves the position on;
* `Logged` — the records between two positions;
* `Logged.write`, `Logged.store`, `Logged.front` — what is written behind the last record spares
  the others; a record is added behind the last one, and read at the first one's place.
-/

universe u v

/-- How records are stored: what is stored of each, and how many places it takes. -/
structure RecordFormat (ρ : Type u) (α : Type v) where
  /-- What is stored. -/
  bytes : ρ → List α
  /-- The number of places that the record takes. -/
  size : ρ → Nat
  length_le : ∀ f, (bytes f).length ≤ size f
  size_pos : ∀ f, 0 < size f

namespace RecordFormat

variable {ρ : Type u} {α : Type v} (F : RecordFormat ρ α) (L : Nat)

/-- The records `fs` lie one behind the other from position `r` up to position `w`. -/
def Logged (mem : Nat → α) : Nat → List ρ → Nat → Prop
  | r, [], w => r = w
  | r, f :: fs, w => slice mem (r % L) (F.bytes f).length = F.bytes f ∧
      Logged mem (r + F.size f) fs w

variable {F L} {mem mem' : Nat → α} {r w : Nat} {f : ρ} {fs : List ρ}

/-- The log does not end before it begins. -/
theorem Logged.le (h : F.Logged L mem r fs w) : r ≤ w := by
  induction fs generalizing r with
  | nil => exact Nat.le_of_eq h
  | cons f fs ih =>
    have hrest := ih h.2
    omega

/-- Between two different positions there is a record, and between equal ones none. -/
theorem Logged.eq_nil_iff (h : F.Logged L mem r fs w) : fs = [] ↔ r = w := by
  cases fs with
  | nil => exact ⟨fun _ => h, fun _ => rfl⟩
  | cons f fs =>
    have hle := Logged.le h.2
    have hpos := F.size_pos f
    constructor
    · rintro ⟨⟩
    · intro heq
      omega

/-- Memory that agrees on the places of the records. -/
theorem Logged.congr (h : F.Logged L mem r fs w)
    (hmem : ∀ p k, r ≤ p → p + k < w → mem' (p % L + k) = mem (p % L + k)) :
    F.Logged L mem' r fs w := by
  induction fs generalizing r with
  | nil => exact h
  | cons f fs ih =>
    have hle := Logged.le h.2
    have hlen := F.length_le f
    refine ⟨?_, ih h.2 fun p k hp hk => hmem p k (by omega) hk⟩
    calc slice mem' (r % L) (F.bytes f).length
        = slice mem (r % L) (F.bytes f).length := by
          refine List.map_congr_left fun k hk => ?_
          have hlt := List.mem_range.mp hk
          exact hmem r k (Nat.le_refl r) (by omega)
      _ = F.bytes f := h.1

/-- The place behind the last record, less than `L` positions after the first one, is no place of
    a record. -/
theorem place_disjoint {p k n : Nat} (hp : r ≤ p) (hk : p + k < w) (hspace : w + n ≤ r + L) :
    p % L + k < w % L ∨ w % L + n ≤ p % L + k := by
  have hL : 0 < L := by omega
  have hp' := Nat.div_add_mod p L
  have hw' := Nat.div_add_mod w L
  have hpL := Nat.mod_lt p hL
  have hwL := Nat.mod_lt w hL
  rcases Nat.lt_trichotomy (p / L) (w / L) with hlt | heq | hgt
  · -- the writer has passed the end of the ring
    right
    have hmul : L * (p / L) + L ≤ L * (w / L) := by
      rw [← Nat.mul_succ]
      exact Nat.mul_le_mul_left L hlt
    omega
  · left
    rw [heq] at hp'
    omega
  · exfalso
    have hle : w / L ≤ p / L := Nat.le_of_lt hgt
    have hdiv : p / L ≤ w / L := Nat.div_le_div_right (by omega)
    omega

/-- **Frame.**  What is written behind the last record, and fits into the ring, spares the
    records. -/
theorem Logged.write (h : F.Logged L mem r fs w) {d : List α} (hspace : w + d.length ≤ r + L) :
    F.Logged L (overwrite mem (w % L) d) r fs w := by
  refine h.congr fun p k hp hk => ?_
  rcases place_disjoint hp hk hspace with hlt | hge
  · exact overwrite_of_lt mem d hlt
  · exact overwrite_of_ge mem hge

/-- A record whose bytes lie behind the last one is the last one. -/
theorem Logged.snoc (h : F.Logged L mem r fs w)
    (hf : slice mem (w % L) (F.bytes f).length = F.bytes f) :
    F.Logged L mem r (fs ++ [f]) (w + F.size f) := by
  induction fs generalizing r with
  | nil =>
    cases h
    exact ⟨hf, rfl⟩
  | cons g fs ih => exact ⟨h.1, ih h.2⟩

/-- What was just written can be read from where it was written. -/
theorem slice_overwrite_self (mem : Nat → α) (o : Nat) (d : List α) :
    slice (overwrite mem o d) o d.length = d := by
  apply List.ext_getElem
  · exact length_slice _ _ _
  · intro k hk _
    have hlt : k < d.length := by simpa using hk
    rw [getElem_slice, overwrite_of_mem mem (Nat.le_add_right o k) (by omega)]
    congr 1
    omega

/-- **Storing** a record behind the last one keeps the others, while there is room for it. -/
theorem Logged.store (h : F.Logged L mem r fs w) (hspace : w + F.size f ≤ r + L) :
    F.Logged L (overwrite mem (w % L) (F.bytes f)) r (fs ++ [f]) (w + F.size f) := by
  have hlen := F.length_le f
  exact (h.write (by omega)).snoc (slice_overwrite_self mem _ _)

/-- **Reading** the first record, from any of its bytes on. -/
theorem Logged.front (h : F.Logged L mem r (f :: fs) w) {i n : Nat}
    (hn : i + n ≤ (F.bytes f).length) :
    slice mem (r % L + i) n = ((F.bytes f).drop i).take n := by
  rw [← h.1]
  apply List.ext_getElem
  · simp
    omega
  · intro k _ hk
    simp only [List.length_take, List.length_drop, length_slice] at hk
    simp [Nat.add_assoc]

end RecordFormat

end Ecos.Lib
