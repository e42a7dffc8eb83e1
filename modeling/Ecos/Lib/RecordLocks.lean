import Mathlib.Data.List.Basic
import Mathlib.Logic.Basic

namespace Ecos.Lib

/-!
# Advisory record locks

The locks that the kernel keeps on the ranges of a file, as `fcntl` sets them: each lock has an
owner, a process, and two owners share a range only for reading.

* `LockTable` — the locks, no two of which are in conflict;
* `LockTable.set`, `LockTable.unset`, `LockTable.drop` — set a lock on some ranges, unless another
  owner's lock is in the way; give some ranges free; give everything of an owner free;
* `holds_set`, `holds_unset`, `holds_drop` — who holds what afterwards.
-/

universe u v

/-- The modes of a lock, `F_RDLCK` and `F_WRLCK` -/
inductive LockMode
  | read | write
  deriving DecidableEq, Repr

/-- A lock on a range of the file, in the name of its owner. -/
structure RecordLock (π : Type u) (ρ : Type v) where
  owner : π
  range : ρ
  mode : LockMode
  deriving DecidableEq, Repr

variable {π : Type u} {ρ : Type v}

/-- Two locks are in conflict: they are on the same range, they have different owners, and one of
    them is for writing. -/
def RecordLock.Conflicts (a b : RecordLock π ρ) : Prop :=
  a.owner ≠ b.owner ∧ a.range = b.range ∧ (a.mode = .write ∨ b.mode = .write)

instance [DecidableEq π] [DecidableEq ρ] (a b : RecordLock π ρ) : Decidable (a.Conflicts b) :=
  inferInstanceAs (Decidable (_ ∧ _ ∧ _))

/-- A conflict is mutual: neither lock may be set while the other one is there. -/
theorem RecordLock.Conflicts.symm {a b : RecordLock π ρ} (h : a.Conflicts b) : b.Conflicts a :=
  ⟨h.1.symm, h.2.1.symm, h.2.2.symm⟩

/-- The locks on a file, none of which is in conflict with another. -/
structure LockTable (π : Type u) (ρ : Type v) where
  locks : List (RecordLock π ρ)
  compatible : ∀ a ∈ locks, ∀ b ∈ locks, ¬a.Conflicts b

namespace LockTable

/-- No locks, which is the table of a file that nobody has touched. -/
def empty : LockTable π ρ := ⟨[], by rintro a ⟨⟩⟩

/-- `p` has a lock of mode `m` on the range `x`. -/
def Holds (t : LockTable π ρ) (p : π) (x : ρ) (m : LockMode) : Prop := ⟨p, x, m⟩ ∈ t.locks

/-- A part of the locks, which is in no conflict either. -/
def filter (t : LockTable π ρ) (f : RecordLock π ρ → Bool) : LockTable π ρ where
  locks := t.locks.filter f
  compatible a ha b hb := t.compatible a (List.mem_of_mem_filter ha) b (List.mem_of_mem_filter hb)

/-- The locks that `p` asks for, one on each range. -/
def wanted (p : π) (xs : List ρ) (m : LockMode) : List (RecordLock π ρ) := xs.map (⟨p, ·, m⟩)

variable {t t' : LockTable π ρ} {p q : π} {x : ρ} {xs : List ρ} {m m' : LockMode}

/-- The locks that one request asks for do not conflict. -/
theorem not_conflicts_wanted {a b : RecordLock π ρ}
    (ha : a ∈ wanted p xs m) (hb : b ∈ wanted p xs m) : ¬a.Conflicts b := by
  obtain ⟨x, -, rfl⟩ := List.mem_map.mp ha
  obtain ⟨y, -, rfl⟩ := List.mem_map.mp hb
  exact fun h => h.1 rfl

/-- In an empty table nobody holds anything, in either mode. -/
@[simp] theorem holds_empty : ¬(empty : LockTable π ρ).Holds p x m := List.not_mem_nil

/-- A lock for writing is alone on its range. -/
theorem Holds.unique (h : t.Holds p x .write) (h' : t.Holds q x m) : p = q := by
  by_contra hne
  exact t.compatible _ h _ h' ⟨hne, rfl, .inl rfl⟩

variable [DecidableEq π]

/-- `close` of a descriptor, or the end of the process: all locks of `p` go. -/
def drop (t : LockTable π ρ) (p : π) : LockTable π ρ := t.filter fun a => a.owner ≠ p

/-- The locks that are left when the process `p` drops its own. -/
@[simp] theorem holds_drop : (t.drop p).Holds q x m ↔ t.Holds q x m ∧ q ≠ p := by
  unfold Holds drop filter
  rw [List.mem_filter, decide_eq_true_iff]

variable [DecidableEq ρ]

instance (t : LockTable π ρ) (p : π) (x : ρ) (m : LockMode) : Decidable (t.Holds p x m) :=
  inferInstanceAs (Decidable (_ ∈ _))

/-- Is a lock of another owner in the way of the locks that `p` asks for? -/
def Blocked (t : LockTable π ρ) (p : π) (xs : List ρ) (m : LockMode) : Prop :=
  ∃ a ∈ t.locks, ∃ b ∈ wanted p xs m, a.Conflicts b

instance (t : LockTable π ρ) (p : π) (xs : List ρ) (m : LockMode) : Decidable (t.Blocked p xs m) :=
  inferInstanceAs (Decidable (∃ a ∈ t.locks, ∃ b ∈ wanted p xs m, a.Conflicts b))

/-- `F_SETLK` with `F_UNLCK` on the ranges `xs`, which never fails here -/
def unset (t : LockTable π ρ) (p : π) (xs : List ρ) : LockTable π ρ :=
  t.filter fun a => ¬(a.owner = p ∧ a.range ∈ xs)

/-- `F_SETLK` on the ranges `xs`: what `p` had there before is replaced. -/
def set (t : LockTable π ρ) (p : π) (xs : List ρ) (m : LockMode) : Option (LockTable π ρ) :=
  if h : t.Blocked p xs m then none
  else some
    { locks := wanted p xs m ++ (t.unset p xs).locks
      compatible := by
        have hold : ∀ a ∈ (t.unset p xs).locks, ∀ b ∈ wanted p xs m, ¬a.Conflicts b :=
          fun a ha b hb hab => h ⟨a, List.mem_of_mem_filter ha, b, hb, hab⟩
        intro a ha b hb hab
        rcases List.mem_append.mp ha with ha | ha <;> rcases List.mem_append.mp hb with hb | hb
        · exact not_conflicts_wanted ha hb hab
        · exact hold b hb a ha hab.symm
        · exact hold a ha b hb hab
        · exact (t.unset p xs).compatible a ha b hb hab }

/-! ### Who holds what -/

/-- The locks that are left when the process `p` unlocks ranges. -/
@[simp] theorem holds_unset : (t.unset p xs).Holds q x m ↔ t.Holds q x m ∧ ¬(q = p ∧ x ∈ xs) := by
  unfold Holds unset filter
  rw [List.mem_filter, decide_eq_true_iff]

/-- The locks that are there when the process `p` was granted ranges: its old ones on them are
    replaced. -/
theorem holds_set (h : t.set p xs m = some t') : t'.Holds q x m' ↔
    (q = p ∧ x ∈ xs ∧ m' = m) ∨ (t.Holds q x m' ∧ ¬(q = p ∧ x ∈ xs)) := by
  unfold set at h
  split at h
  · cases h
  · cases h
    rw [show t.Holds q x m' ∧ ¬(q = p ∧ x ∈ xs) ↔ (t.unset p xs).Holds q x m' from
      holds_unset.symm]
    unfold Holds wanted
    rw [List.mem_append, List.mem_map]
    refine or_congr_left ⟨?_, ?_⟩
    · rintro ⟨y, hy, heq⟩
      cases heq
      exact ⟨rfl, hy, rfl⟩
    · rintro ⟨rfl, hx, rfl⟩
      exact ⟨x, hx, rfl⟩

/-- What was set is held, on each of the ranges. -/
theorem set_self (h : t.set p xs m = some t') (hx : x ∈ xs) : t'.Holds p x m :=
  (holds_set h).mpr (.inl ⟨rfl, hx, rfl⟩)

/-- Another owner's locks are not touched when locks are set. -/
theorem holds_set_of_ne (h : t.set p xs m = some t') (hq : q ≠ p) :
    t'.Holds q x m' ↔ t.Holds q x m' := by
  rw [holds_set h]
  simp [hq]

/-- An owner's locks on other ranges are not touched. -/
theorem holds_set_of_notMem (h : t.set p xs m = some t') (hx : x ∉ xs) :
    t'.Holds q x m' ↔ t.Holds q x m' := by
  rw [holds_set h]
  simp [hx]

end LockTable

end Ecos.Lib
