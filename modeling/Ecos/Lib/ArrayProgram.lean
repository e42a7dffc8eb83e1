import Ecos.Lib.CrashProgram

namespace Ecos.Lib

/-!
# Programs on an array

A program that uses an array word by word, as the tree of its reads and writes.  It knows of the
array what it has read, so the indices of its calls are all the places it looks at.

* `ArrayCall`, `ArrayProgram` — a read or a write, and the programs made of them;
* `ArrayProgram.exec` — the result of a program and what it makes of the array;
* `ArrayProgram.indices`, `ArrayProgram.Inside` — the indices that it uses, and that they are all
  below a bound;
* `inside_bind`, `inside_read`, `inside_write` — the rules.
-/

variable {α β γ : Type}

/-- One use of an array of words in `α`: a word is read, or written. -/
inductive ArrayCall (α : Type)
  | read (i : Nat)
  | write (i : Nat) (x : α)

namespace ArrayCall

/-- What the program gets for it: the word that it read, or nothing. -/
def Result : ArrayCall α → Type
  | .read _ => α
  | .write _ _ => Unit

/-- The index that a call uses, whether or not it lies inside the array. -/
def index : ArrayCall α → Nat
  | .read i | .write i _ => i

end ArrayCall

/-- A program that uses an array of words in `α` through these calls only. -/
abbrev ArrayProgram (α β : Type) := Program (@ArrayCall.Result α) β

namespace ArrayProgram

/-- `a[i]` -/
def read (i : Nat) : ArrayProgram α α := Program.perform (ArrayCall.read i)

/-- `a[i] = x` -/
def write (i : Nat) (x : α) : ArrayProgram α Unit := Program.perform (ArrayCall.write i x)

variable (beyond : Nat → α)

/-- The result of a program on array `m`, and the array at its end.  A read behind the array finds
    what is there, `beyond`; a write behind it is undefined. -/
def exec : ArrayProgram α β → List α → Option (β × List α)
  | .pure b, m => some (b, m)
  | .call (.read i) k, m => exec (k (m.getD i (beyond i))) m
  | .call (.write i x) k, m => if i < m.length then exec (k ()) (m.set i x) else none

/-- The indices that a program uses on array `m`, up to the first write behind it. -/
def indices : ArrayProgram α β → List α → List Nat
  | .pure _, _ => []
  | .call (.read i) k, m => i :: indices (k (m.getD i (beyond i))) m
  | .call (.write i x) k, m => i :: if i < m.length then indices (k ()) (m.set i x) else []

/-- All indices that the program uses are below `n`, on the way that it takes from the words `m`. -/
def Inside (p : ArrayProgram α β) (m : List α) (n : Nat) : Prop := ∀ i ∈ p.indices beyond m, i < n

variable {beyond} {p : ArrayProgram α β} {m : List α} {n i : Nat} {x : α}

/-! ### What programs do -/

/-- A program that has come to its end leaves the words as they are. -/
@[simp] theorem exec_pure (b : β) : exec beyond (Pure.pure b : ArrayProgram α β) m = some (b, m) :=
  rfl

/-- A program in pieces is executed piece by piece, each on the words that the one before has
    left. -/
@[simp] theorem exec_bind (p : ArrayProgram α β) (f : β → ArrayProgram α γ) (m : List α) :
    exec beyond (p >>= f) m = (exec beyond p m).bind fun r => exec beyond (f r.1) r.2 := by
  induction p generalizing m with
  | pure b => rfl
  | call c k ih =>
    cases c with
    | read i => exact ih _ _
    | write i x =>
      by_cases hi : i < m.length
      · have hcall := ih () (m.set i x)
        simp only [bind] at hcall
        simp only [bind, Program.bind, exec, hi, if_true]
        exact hcall
      · simp only [bind, Program.bind, exec, hi, if_false, Option.bind_none]

/-- A read gives the word there, or what is beyond the array; the words stay. -/
@[simp] theorem exec_read (i : Nat) (m : List α) :
    exec beyond (read i) m = some (m.getD i (beyond i), m) := rfl

/-- A write inside the array changes the word there, and one outside of it does not return. -/
@[simp] theorem exec_write (i : Nat) (x : α) (m : List α) :
    exec beyond (write i x) m = if i < m.length then some ((), m.set i x) else none := rfl

/-! ### Which indices they use -/

/-- A program that has come to its end uses no index. -/
@[simp] theorem inside_pure (b : β) : Inside beyond (Pure.pure b : ArrayProgram α β) m n := by
  intro i hi
  cases hi

/-- A program in pieces stays inside when the first does, and the second from where the first has
    ended. -/
@[simp] theorem inside_bind (p : ArrayProgram α β) (f : β → ArrayProgram α γ) (m : List α) :
    Inside beyond (p >>= f) m n ↔ Inside beyond p m n ∧
      ∀ b m', exec beyond p m = some (b, m') → Inside beyond (f b) m' n := by
  induction p generalizing m with
  | pure b =>
    refine ⟨fun h => ⟨inside_pure b, fun b' m' hp => ?_⟩, fun h => h.2 b m rfl⟩
    obtain ⟨rfl, rfl⟩ := Prod.mk.inj (Option.some.inj hp)
    exact h
  | call c k ih =>
    cases c with
    | read i =>
      have hcall := ih (m.getD i (beyond i)) m
      simp only [Inside, bind, Program.bind, indices, exec, List.forall_mem_cons] at hcall ⊢
      rw [hcall, and_assoc]
    | write i x =>
      by_cases hi : i < m.length
      · have hcall := ih () (m.set i x)
        simp only [Inside, bind, Program.bind, indices, exec, hi, if_true,
          List.forall_mem_cons] at hcall ⊢
        rw [hcall, and_assoc]
      · simp [Inside, bind, Program.bind, indices, exec, hi]

/-- A read is inside when its index is. -/
@[simp] theorem inside_read : Inside beyond (read i : ArrayProgram α α) m n ↔ i < n := by
  simp [Inside, read, Program.perform, indices]

/-- A write is inside when its index is. -/
@[simp] theorem inside_write : Inside beyond (write i x) m n ↔ i < n := by
  simp [Inside, write, Program.perform, indices]

end ArrayProgram

end Ecos.Lib
