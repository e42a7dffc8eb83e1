import Mathlib.Algebra.Ring.Nat
import Mathlib.Logic.Relation
import Mathlib.Data.List.Basic

namespace Ecos.Lib

/-!
# Labelled transition systems and their runs

The systems of this development are state machines whose steps carry a label (the call
that was made, its arguments and its result).  This file fixes the vocabulary they share:

* `LTS` — initial states and a labelled step relation;
* `LTS.Run as s` — `s` is reached from an initial state by a run with trace `as`
  (oldest label first);
* `LTS.Run.invariant` / `LTS.Run.invariant_trace` — the induction over runs, packaged
  once: a predicate on states (on traces and states) that holds initially and is kept by
  every step holds after every run;
* `LTS.restrict G` — the runs all of whose steps meet the condition `G`;
* `LTS.ofStep`, `LTS.ofFun` — the systems of step functions without and with an output;
* `LTS.Run.of_foldlM`, `LTS.Run.of_exec` and their forms for `ofStep`, `ofFun` and restricted
  systems — running a step function makes a run;
* `Simulation` — forward simulation up to a relabelling, and its lift to runs.
-/

universe u v w x

/-- A labelled transition system over states `σ` and labels `α`, which need not be deterministic. -/
structure LTS (σ : Type u) (α : Type v) where
  /-- The states a run may start in. -/
  init : σ → Prop
  /-- `step s a s'`: the system can move from `s` to `s'`, doing `a`. -/
  step : σ → α → σ → Prop

namespace LTS

variable {σ : Type u} {α : Type v} {M : LTS σ α}

/-- `M.Run as s`: some run of `M` from an initial state has trace `as` and ends in `s`. -/
inductive Run (M : LTS σ α) : List α → σ → Prop
  | init {s : σ} (h : M.init s) : Run M [] s
  | step {as : List α} {s : σ} {a : α} {s' : σ} (h : Run M as s) (h' : M.step s a s') :
      Run M (as ++ [a]) s'

/-- `M.Reachable s`: some run of `M` ends in `s`, whatever its labels. -/
def Reachable (M : LTS σ α) (s : σ) : Prop := ∃ as, M.Run as s

/-- **Run invariant over traces.**  What holds of the empty trace in every initial state
    and is kept by every step holds of the trace and the last state of every run. -/
theorem Run.invariant_trace {I : List α → σ → Prop} (h0 : ∀ s, M.init s → I [] s)
    (hs : ∀ as s a s', M.Run as s → I as s → M.step s a s' → I (as ++ [a]) s')
    {as : List α} {s : σ} (h : M.Run as s) : I as s := by
  induction h with
  | init h => exact h0 _ h
  | step h h' ih => exact hs _ _ _ _ h ih h'

/-- **Run invariant.**  What holds initially and is kept by every step holds after every
    run. -/
theorem Run.invariant {I : σ → Prop} (h0 : ∀ s, M.init s → I s)
    (hs : ∀ s a s', I s → M.step s a s' → I s') {as : List α} {s : σ} (h : M.Run as s) :
    I s :=
  Run.invariant_trace (I := fun _ s => I s) h0 (fun _ s a s' _ => hs s a s') h

/-- Initial states are reachable. -/
theorem Reachable.init {s : σ} (h : M.init s) : M.Reachable s := ⟨[], .init h⟩

/-- A step from a reachable state leads to a reachable state. -/
theorem Reachable.step {s s' : σ} {a : α} (h : M.Reachable s) (h' : M.step s a s') :
    M.Reachable s' := by
  obtain ⟨as, h⟩ := h
  exact ⟨as ++ [a], .step h h'⟩

/-- The reachable-state form of `Run.invariant`, for what does not speak of the labels. -/
theorem Reachable.invariant {I : σ → Prop} (h0 : ∀ s, M.init s → I s)
    (hs : ∀ s a s', I s → M.step s a s' → I s') {s : σ} (h : M.Reachable s) : I s := by
  obtain ⟨as, h⟩ := h
  exact h.invariant h0 hs

/-! ### Runs whose steps meet a condition -/

/-- The system `M` cut down to the steps that meet `G`, a condition on the state before
    the step and on the label. -/
def restrict (M : LTS σ α) (G : σ → α → Prop) : LTS σ α where
  init := M.init
  step s a s' := M.step s a s' ∧ G s a

/-! ### Systems given by a step function -/

variable {ι : Type w} {ο : Type x}

/-- The system of a partial step function `f`: where it is undefined, there is no step. -/
def ofStep (s₀ : σ) (f : σ → α → Option σ) : LTS σ α where
  init s := s = s₀
  step s a s' := f s a = some s'

/-- Steps that a function makes one after the other continue a run. -/
theorem Run.of_foldlM {f : σ → α → Option σ} (hf : ∀ s a s', f s a = some s' → M.step s a s')
    {s s' : σ} {as bs : List α} (h : M.Run as s) (hb : bs.foldlM f s = some s') :
    M.Run (as ++ bs) s' := by
  induction bs generalizing s as with
  | nil =>
    obtain rfl : s = s' := by simpa using hb
    simpa using h
  | cons b bs ih =>
    obtain ⟨s₁, hstep, hrest⟩ := Option.bind_eq_some_iff.mp hb
    have hrun := ih (.step h (hf s b s₁ hstep)) hrest
    simpa using hrun

/-- Labels that are accepted one after the other continue a run. -/
theorem Run.foldlM {s₀ s s' : σ} {f : σ → α → Option σ} {as bs : List α}
    (h : (ofStep s₀ f).Run as s) (hf : bs.foldlM f s = some s') :
    (ofStep s₀ f).Run (as ++ bs) s' :=
  Run.of_foldlM (fun _ _ _ hstep => hstep) h hf

/-- Labels that are accepted and meet the condition, one after the other, continue a run of the
    restricted system. -/
theorem Run.foldlM_restrict {s₀ s s' : σ} {f : σ → α → Option σ} {G : σ → α → Prop}
    [∀ s a, Decidable (G s a)] {as bs : List α} (h : ((ofStep s₀ f).restrict G).Run as s)
    (hf : bs.foldlM (fun s a => if G s a then f s a else none) s = some s') :
    ((ofStep s₀ f).restrict G).Run (as ++ bs) s' := by
  refine Run.of_foldlM (fun s a s' hstep => ?_) h hf
  by_cases hG : G s a
  · rw [if_pos hG] at hstep
    exact ⟨hstep, hG⟩
  · rw [if_neg hG] at hstep
    cases hstep

/-- The system of a partial step function `f` that takes an input and gives an output. -/
def ofFun (s₀ : σ) (f : σ → ι → Option (ο × σ)) : LTS σ (ι × ο) where
  init s := s = s₀
  step s a s' := f s a.1 = some (a.2, s')

/-- Feed the inputs to the step function, one after the other, and collect its outputs. -/
def exec (f : σ → ι → Option (ο × σ)) : List ι → σ → Option (List ο × σ)
  | [], s => some ([], s)
  | i :: is, s => do
    let (o, s) ← f s i
    let (os, s) ← exec f is s
    return (o :: os, s)

/-- Steps that a function makes one after the other, with their outputs, continue a run. -/
theorem Run.of_exec {N : LTS σ (ι × ο)} {f : σ → ι → Option (ο × σ)}
    (hf : ∀ s i o s', f s i = some (o, s') → N.step s (i, o) s') {s s' : σ}
    {as : List (ι × ο)} {is : List ι} {os : List ο} (h : N.Run as s)
    (hex : LTS.exec f is s = some (os, s')) : N.Run (as ++ is.zip os) s' := by
  induction is generalizing s as os with
  | nil =>
    obtain ⟨rfl, rfl⟩ : os = [] ∧ s = s' := by simpa [LTS.exec, eq_comm] using hex
    simpa using h
  | cons i is ih =>
    obtain ⟨⟨o, s₁⟩, hstep, hex⟩ := Option.bind_eq_some_iff.mp hex
    obtain ⟨⟨os', s₂⟩, hrest, hex⟩ := Option.bind_eq_some_iff.mp hex
    obtain ⟨rfl, rfl⟩ : os = o :: os' ∧ s₂ = s' := by simpa [eq_comm] using hex
    have hrun := ih (.step h (hf s i o s₁ hstep)) hrest
    simpa using hrun

/-- Inputs that are accepted one after the other continue a run, which is how a run on fixed inputs
    is found. -/
theorem Run.exec {s₀ s s' : σ} {f : σ → ι → Option (ο × σ)} {as : List (ι × ο)}
    {is : List ι} {os : List ο} (h : (ofFun s₀ f).Run as s)
    (hex : LTS.exec f is s = some (os, s')) : (ofFun s₀ f).Run (as ++ is.zip os) s' :=
  Run.of_exec (fun _ _ _ _ hstep => hstep) h hex

/-- The step function `f` cut down to the steps that meet `G`, so that such runs can be computed. -/
def guard (f : σ → ι → Option (ο × σ)) (G : σ → ι × ο → Prop) [∀ s a, Decidable (G s a)]
    (s : σ) (i : ι) : Option (ο × σ) :=
  (f s i).filter fun r => G s (i, r.1)

/-- Inputs that are accepted and meet the condition, one after the other, continue a run of the
    restricted system. -/
theorem Run.exec_restrict {s₀ s s' : σ} {f : σ → ι → Option (ο × σ)} {G : σ → ι × ο → Prop}
    [∀ s a, Decidable (G s a)] {as : List (ι × ο)} {is : List ι} {os : List ο}
    (h : ((ofFun s₀ f).restrict G).Run as s)
    (hex : LTS.exec (guard f G) is s = some (os, s')) :
    ((ofFun s₀ f).restrict G).Run (as ++ is.zip os) s' := by
  refine Run.of_exec (fun s i o s' hstep => ?_) h hex
  obtain ⟨hf, hG⟩ := Option.filter_eq_some_iff.mp hstep
  exact ⟨hf, of_decide_eq_true hG⟩

end LTS

/-! ### Forward simulation -/

/-- `Simulation M N f`: a relation between the states of `M` and those of `N` under which
    every step of `M` from a reached state is matched by a step of `N` whose label `f` maps
    to the label of `M`. -/
structure Simulation {σ : Type u} {α : Type v} {τ : Type w} {β : Type x}
    (M : LTS σ α) (N : LTS τ β) (f : β → α) where
  /-- The abstraction relation. -/
  rel : σ → τ → Prop
  /-- Every initial state of `M` abstracts to an initial state of `N`. -/
  init : ∀ s, M.init s → ∃ t, N.init t ∧ rel s t
  /-- Every step of `M` is matched by one of `N`. -/
  step : ∀ s a s' t, M.Reachable s → rel s t → M.step s a s' →
    ∃ b t', f b = a ∧ N.step t b t' ∧ rel s' t'

/-- **Runs are simulated.**  Every run of `M` is matched, label by label, by a run of `N`
    that ends in a related state. -/
theorem Simulation.run {σ : Type u} {α : Type v} {τ : Type w} {β : Type x}
    {M : LTS σ α} {N : LTS τ β} {f : β → α} (S : Simulation M N f) {as : List α} {s : σ}
    (h : M.Run as s) : ∃ bs t, bs.map f = as ∧ N.Run bs t ∧ S.rel s t := by
  induction h with
  | init h =>
    obtain ⟨t, ht, hrel⟩ := S.init _ h
    exact ⟨[], t, rfl, .init ht, hrel⟩
  | step h h' ih =>
    obtain ⟨bs, t, hbs, hrun, hrel⟩ := ih
    obtain ⟨b, t', hb, hstep, hrel'⟩ := S.step _ _ _ t ⟨_, h⟩ hrel h'
    exact ⟨bs ++ [b], t', by simp [hbs, hb], .step hrun hstep, hrel'⟩

end Ecos.Lib
