import Mathlib.Algebra.Ring.Nat
import Mathlib.Data.List.Basic

namespace Ecos.Lib

/-!
# Programs that may be cut off

A program makes calls to a machine and goes on with their results.  It may be cut off in front of
any of its calls, so it has to leave the machine in order there, not only at its end.

* `Program` — a program is the tree of its calls;
* `Machine` — what a call does, given what the environment answers;
* `Program.Safe` — whatever the environment answers, the invariant holds in front of every call and
  the postcondition at the end; a ghost state moves along, by at most one allowed move per call;
* `safe_bind`, `safe_step`, `Safe.imp` — the rules.

A program is a finite tree in every direction, so `Safe` is about total correctness.
-/

/-- Programs whose calls `c : C` have results in `R c`: what the code does, without saying what the
    calls do. -/
inductive Program {C : Type} (R : C → Type) (α : Type)
  | pure (a : α)
  | call (c : C) (k : R c → Program R α)

namespace Program

variable {C : Type} {R : C → Type} {α β : Type}

/-- A program, and what is done with its result. -/
protected def bind : Program R α → (α → Program R β) → Program R β
  | .pure a, f => f a
  | .call c k, f => .call c fun r => (k r).bind f

instance : Monad (Program R) where
  pure := .pure
  bind := Program.bind

/-- A single call, and its result. -/
def perform (c : C) : Program R (R c) := .call c .pure

end Program

/-- What the calls do to the state, given what the environment answers; a crash may come between
    any two of them. -/
structure Machine {C : Type} (R : C → Type) (σ ε : Type) where
  perform : σ → ε → (c : C) → R c × σ

namespace Program

variable {C : Type} {R : C → Type} {α β σ ε γ : Type} (M : Machine R σ ε) (I : σ → γ → Prop)
  (move : γ → γ → Prop)

/-- The program can be run from state `s` with ghost state `g`: the invariant `I` holds in front of
    each of its calls, and `Q` at its end. -/
def Safe : Program R α → (α → σ → γ → Prop) → σ → γ → Prop
  | .pure a, Q, s, g => Q a s g
  | .call c k, Q, s, g => I s g ∧ ∀ e, ∃ g', move g g' ∧
      Safe (k (M.perform s e c).1) Q (M.perform s e c).2 g'

variable {M I move} {p : Program R α} {Q Q' : α → σ → γ → Prop} {s : σ} {g : γ}

/-- A program that has come to its end is safe when its result is as wanted. -/
@[simp] theorem safe_pure {a : α} : Safe M I move (Pure.pure a) Q s g ↔ Q a s g := Iff.rfl

/-- A program in pieces is safe when the first is, with the safety of the second as what is wanted
    of it. -/
@[simp] theorem safe_bind {f : α → Program R β} {Q : β → σ → γ → Prop} :
    Safe M I move (p >>= f) Q s g ↔
      Safe M I move p (fun a s g => Safe M I move (f a) Q s g) s g := by
  induction p generalizing s g with
  | pure a => rfl
  | call c k ih =>
    refine and_congr_right fun _ => forall_congr' fun e => exists_congr fun g' => ?_
    exact and_congr_right fun _ => ih _

/-- A call that leaves the ghost state alone needs the invariant before it, and the rest after
    it. -/
theorem safe_step (hrefl : move g g) {c : C} {Q : R c → σ → γ → Prop} (hI : I s g)
    (hQ : ∀ e, Q (M.perform s e c).1 (M.perform s e c).2 g) : Safe M I move (perform c) Q s g :=
  ⟨hI, fun e => ⟨g, hrefl, hQ e⟩⟩

/-- What is wanted of the result can be weakened. -/
theorem Safe.imp (h : Safe M I move p Q s g) (hQ : ∀ a s g, Q a s g → Q' a s g) :
    Safe M I move p Q' s g := by
  induction p generalizing s g with
  | pure a => exact hQ a s g h
  | call c k ih =>
    refine ⟨h.1, fun e => ?_⟩
    obtain ⟨g', hmove, hk⟩ := h.2 e
    exact ⟨g', hmove, ih _ hk⟩

end Program

end Ecos.Lib
