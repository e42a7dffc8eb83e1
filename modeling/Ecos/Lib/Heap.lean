import Mathlib.Data.Finset.Card
import Mathlib.Data.Finset.Insert
import Mathlib.Logic.Function.Basic

namespace Ecos.Lib

/-!
# A heap of blocks

A C heap seen from one module: `malloc` hands out blocks, `free` takes them back, and
reading, writing or freeing a block that is not live is undefined behaviour.  Addresses
are numbers, `0` is `NULL`; a block holds one value of a type `β`.

* `Heap.load`, `Heap.store`, `Heap.free` return `none` on undefined behaviour, so a
  computation that ends in `some` never touched a dead block;
* `Heap.malloc` takes the address the allocator would answer with: the call fails when
  that address is `NULL` or still in use, so one definition covers every allocator;
* `Heap.frees` logs the addresses passed to `free`, oldest first.
-/

universe u

/-- A heap address; `0` is `NULL`, and no block is there. -/
abbrev Addr := Nat

/-- The live blocks of a heap with their contents, and the log of `free` calls. -/
structure Heap (β : Type u) where
  /-- Addresses of the live blocks. -/
  live : Finset Addr
  /-- Contents of the blocks. -/
  cell : Addr → Option β
  /-- Addresses passed to `free`, oldest first. -/
  frees : List Addr
  cell_isSome : ∀ a, (cell a).isSome ↔ a ∈ live
  null_not_live : 0 ∉ live

namespace Heap

variable {β : Type u}

/-- The heap without blocks, and with an empty log. -/
def empty : Heap β where
  live := ∅
  cell := fun _ => none
  frees := []
  cell_isSome := by simp
  null_not_live := by simp

/-- Read a block; none where none is live. -/
def load (h : Heap β) (a : Addr) : Option β := h.cell a

/-- Overwrite a live block; a write elsewhere is undefined. -/
def store (h : Heap β) (a : Addr) (b : β) : Option (Heap β) :=
  if ha : a ∈ h.live then
    some { h with
      cell := Function.update h.cell a (some b)
      cell_isSome := by
        intro c
        by_cases hc : c = a
        · subst hc; simp [ha]
        · rw [Function.update_of_ne hc]; exact h.cell_isSome c }
  else none

/-- Give a live block back, and log it; a second `free` of it is undefined. -/
def free (h : Heap β) (a : Addr) : Option (Heap β) :=
  if a ∈ h.live then
    some {
      live := h.live.erase a
      cell := Function.update h.cell a none
      frees := h.frees ++ [a]
      cell_isSome := by
        intro c
        by_cases hc : c = a
        · subst hc; simp
        · rw [Function.update_of_ne hc, h.cell_isSome c]; simp [hc]
      null_not_live := by simp [h.null_not_live] }
  else none

/-- Ask for a block with initial contents `b`.  `a` is the allocator's answer: `malloc`
    returns `NULL` (here `none`) when it is `NULL` or not available. -/
def malloc (h : Heap β) (a : Addr) (b : β) : Option (Heap β) :=
  if ha : a = 0 ∨ a ∈ h.live then none
  else
    some { h with
      live := insert a h.live
      cell := Function.update h.cell a (some b)
      cell_isSome := by
        intro c
        by_cases hc : c = a
        · subst hc; simp
        · rw [Function.update_of_ne hc, h.cell_isSome c]; simp [hc]
      null_not_live := by
        rw [Finset.mem_insert, not_or]
        exact ⟨fun h0 => ha (Or.inl h0.symm), h.null_not_live⟩ }

/-! ### What each operation leaves behind -/

/-- A block that can be read is live. -/
theorem mem_live_of_cell {h : Heap β} {a : Addr} {b : β} (hb : h.cell a = some b) :
    a ∈ h.live := (h.cell_isSome a).mp (by simp [hb])

/-- Two heaps with the same blocks, contents and log are the same. -/
theorem ext' {h h' : Heap β} (hl : h.live = h'.live) (hc : h.cell = h'.cell)
    (hf : h.frees = h'.frees) : h = h' := by
  cases h; cases h'; subst hl hc hf; rfl

/-- **What `store` does.**  It succeeds exactly on live blocks and changes that block
    only. -/
theorem store_eq_some {h h' : Heap β} {a : Addr} {b : β} :
    h.store a b = some h' ↔ a ∈ h.live ∧ h'.live = h.live ∧ h'.frees = h.frees ∧
      h'.cell = Function.update h.cell a (some b) := by
  unfold store
  constructor
  · intro hs
    split at hs
    · rename_i ha
      obtain rfl := Option.some.inj hs
      exact ⟨ha, rfl, rfl, rfl⟩
    · cases hs
  · rintro ⟨ha, hl, hf, hc⟩
    rw [dif_pos ha]
    exact congrArg some (ext' hl.symm hc.symm hf.symm)

/-- **What `free` does.**  It succeeds exactly on live blocks, removes that block and logs
    it. -/
theorem free_eq_some {h h' : Heap β} {a : Addr} :
    h.free a = some h' ↔ a ∈ h.live ∧ h'.live = h.live.erase a ∧ h'.frees = h.frees ++ [a] ∧
      h'.cell = Function.update h.cell a none := by
  unfold free
  constructor
  · intro hs
    split at hs
    · rename_i ha
      obtain rfl := Option.some.inj hs
      exact ⟨ha, rfl, rfl, rfl⟩
    · cases hs
  · rintro ⟨ha, hl, hf, hc⟩
    rw [if_pos ha]
    exact congrArg some (ext' hl.symm hc.symm hf.symm)

/-- **What `malloc` does.**  When it succeeds the block is new, not `NULL`, and the other
    blocks are as they were. -/
theorem malloc_eq_some {h h' : Heap β} {a : Addr} {b : β} :
    h.malloc a b = some h' ↔ a ≠ 0 ∧ a ∉ h.live ∧ h'.live = insert a h.live ∧
      h'.frees = h.frees ∧ h'.cell = Function.update h.cell a (some b) := by
  unfold malloc
  constructor
  · intro hs
    split at hs
    · cases hs
    · rename_i ha
      obtain rfl := Option.some.inj hs
      exact ⟨fun h0 => ha (Or.inl h0), fun hl => ha (Or.inr hl), rfl, rfl, rfl⟩
  · rintro ⟨h0, ha, hl, hf, hc⟩
    rw [dif_neg (not_or.mpr ⟨h0, ha⟩)]
    exact congrArg some (ext' hl.symm hc.symm hf.symm)

/-- `malloc` fails exactly when the allocator has no new block to give: its answer is `NULL`, or it
    is in use. -/
theorem malloc_eq_none {h : Heap β} {a : Addr} {b : β} :
    h.malloc a b = none ↔ a = 0 ∨ a ∈ h.live := by
  unfold malloc
  split
  · rename_i ha; simp [ha]
  · rename_i ha; simp [ha]

/-- A live block can be overwritten, so that no step gets stuck there. -/
theorem exists_store {h : Heap β} {a : Addr} (b : β) (ha : a ∈ h.live) :
    ∃ h', h.store a b = some h' := by
  unfold store
  rw [dif_pos ha]
  exact ⟨_, rfl⟩

/-- A live block can be freed, so that no step gets stuck there. -/
theorem exists_free {h : Heap β} {a : Addr} (ha : a ∈ h.live) : ∃ h', h.free a = some h' := by
  unfold free
  rw [if_pos ha]
  exact ⟨_, rfl⟩

end Heap

end Ecos.Lib
