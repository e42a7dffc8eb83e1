import Ecos.Lib.Heap
import Mathlib.Data.List.Nodup

namespace Ecos.Lib

/-!
# Singly linked lists in a heap

A linked list is described through what each node *points to*: `pt a = some (v, q)` when
the node at `a` carries the payload `v` and its link field holds `q`.

* `Seg pt p l q` — following the links from `p` passes exactly the nodes `l` (addresses
  with payloads, in order) and arrives at `q`; with `q = NULL` this is a whole list;
* `Seg.det`, `Seg.nodup` — a NULL-terminated list is determined by its head, and hence is
  acyclic: its addresses are pairwise distinct;
* `Seg.set`, `Seg.snoc`, `Seg.unlink` — the three edits (payload update, append at the
  last node, unlink behind a predecessor), stated from what the edit does to `pt`;
* `walk` — the search loop `for (p = last = head; p != NULL; p = p->next)`, with
  `walk_hit` / `walk_miss` telling where it stops.
-/

universe u

variable {α : Type u}

/-- Following `pt` from `p` passes the nodes of the list and ends at the last address. -/
inductive Seg (pt : Addr → Option (α × Addr)) : Addr → List (Addr × α) → Addr → Prop
  | nil (p : Addr) : Seg pt p [] p
  | cons {a : Addr} {v : α} {q r : Addr} {l : List (Addr × α)} (h : pt a = some (v, q))
      (h' : Seg pt q l r) : Seg pt a ((a, v) :: l) r

namespace Seg

variable {pt pt' : Addr → Option (α × Addr)}

/-- An empty segment ends where it begins. -/
@[simp] theorem nil_iff {p r : Addr} : Seg pt p [] r ↔ p = r := by
  constructor
  · rintro ⟨⟩; rfl
  · rintro rfl; exact .nil _

/-- A segment begins with its first node, whose link leads to the rest. -/
@[simp] theorem cons_iff {p r a : Addr} {v : α} {l : List (Addr × α)} :
    Seg pt p ((a, v) :: l) r ↔ p = a ∧ ∃ q, pt a = some (v, q) ∧ Seg pt q l r := by
  constructor
  · rintro (_ | ⟨h, h'⟩); exact ⟨rfl, _, h, h'⟩
  · rintro ⟨rfl, q, h, h'⟩; exact .cons h h'

/-- A segment splits where its list of nodes splits. -/
theorem append_iff {p r : Addr} {l₁ l₂ : List (Addr × α)} :
    Seg pt p (l₁ ++ l₂) r ↔ ∃ q, Seg pt p l₁ q ∧ Seg pt q l₂ r := by
  induction l₁ generalizing p with
  | nil => simp
  | cons x l₁ ih =>
    obtain ⟨a, v⟩ := x
    simp only [List.cons_append, cons_iff, ih]
    constructor
    · rintro ⟨rfl, q, h, q', h₁, h₂⟩; exact ⟨q', ⟨rfl, q, h, h₁⟩, h₂⟩
    · rintro ⟨q', ⟨rfl, q, h, h₁⟩, h₂⟩; exact ⟨rfl, q, h, q', h₁, h₂⟩

/-- Every node of a segment points to its payload. -/
theorem pt_of_mem {p r : Addr} {l : List (Addr × α)} (h : Seg pt p l r) {x : Addr × α}
    (hx : x ∈ l) : ∃ q, pt x.1 = some (x.2, q) := by
  induction h with
  | nil => cases hx
  | @cons a v q r l hpt _ ih =>
    rcases List.mem_cons.mp hx with rfl | hx
    · exact ⟨q, hpt⟩
    · exact ih hx

/-- **Determinism.**  The head of a NULL-terminated list determines its nodes. -/
theorem det (h0 : pt 0 = none) {p : Addr} {l l' : List (Addr × α)} (h : Seg pt p l 0)
    (h' : Seg pt p l' 0) : l = l' := by
  induction l generalizing p l' with
  | nil =>
    obtain rfl := nil_iff.mp h
    cases h' with
    | nil => rfl
    | cons hpt _ => rw [h0] at hpt; cases hpt
  | cons x l ih =>
    obtain ⟨a, v⟩ := x
    obtain ⟨rfl, q, hpt, hl⟩ := cons_iff.mp h
    cases h' with
    | nil => rw [h0] at hpt; cases hpt
    | cons hpt' hl' =>
      obtain ⟨rfl, rfl⟩ := Prod.mk.inj (Option.some.inj (hpt.symm.trans hpt'))
      rw [ih hl hl']

/-- **Acyclicity.**  The addresses on a NULL-terminated list are pairwise distinct. -/
theorem nodup (h0 : pt 0 = none) {p : Addr} {l : List (Addr × α)} (h : Seg pt p l 0) :
    (l.map Prod.fst).Nodup := by
  induction l generalizing p with
  | nil => simp
  | cons x l ih =>
    obtain ⟨a, v⟩ := x
    obtain ⟨rfl, q, hpt, hl⟩ := cons_iff.mp h
    rw [List.map_cons, List.nodup_cons]
    refine ⟨fun hmem => ?_, ih hl⟩
    -- a second visit to the head would make the list a proper suffix of itself
    obtain ⟨⟨b, w⟩, hx, rfl⟩ := List.mem_map.mp hmem
    obtain ⟨l₁, l₂, rfl⟩ := List.append_of_mem hx
    obtain ⟨_, _, hsuf⟩ := append_iff.mp hl
    obtain ⟨rfl, -⟩ := cons_iff.mp hsuf
    have heq := det h0 h hsuf
    have hlen := congrArg List.length heq
    simp only [List.length_cons, List.length_append] at hlen
    omega

/-- A segment only depends on what its own nodes point to. -/
theorem congr {p r : Addr} {l : List (Addr × α)} (h : Seg pt p l r)
    (hag : ∀ x ∈ l, pt' x.1 = pt x.1) : Seg pt' p l r := by
  induction h with
  | nil p => exact .nil p
  | cons hpt _ ih =>
    refine .cons ((hag _ List.mem_cons_self).trans hpt) (ih ?_)
    exact fun x hx => hag x (List.mem_cons_of_mem _ hx)

/-! ### The three edits -/

/-- Changing the payload of one node. -/
theorem set {p r a q : Addr} {v w : α} {l₁ l₂ : List (Addr × α)}
    (h : Seg pt p (l₁ ++ (a, v) :: l₂) r) (hq : pt a = some (v, q))
    (ha : pt' a = some (w, q)) (h₁ : ∀ x ∈ l₁, pt' x.1 = pt x.1)
    (h₂ : ∀ x ∈ l₂, pt' x.1 = pt x.1) : Seg pt' p (l₁ ++ (a, w) :: l₂) r := by
  obtain ⟨m, hs₁, hs⟩ := append_iff.mp h
  obtain ⟨rfl, q', hpt, hs₂⟩ := cons_iff.mp hs
  obtain rfl : q' = q := (Prod.mk.inj (Option.some.inj (hpt.symm.trans hq))).2
  exact append_iff.mpr ⟨m, hs₁.congr h₁, cons_iff.mpr ⟨rfl, q', ha, hs₂.congr h₂⟩⟩

/-- Linking a new node `c` behind the last node `a`. -/
theorem snoc {p a c : Addr} {v w : α} {l : List (Addr × α)}
    (h : Seg pt p (l ++ [(a, v)]) 0) (ha : pt' a = some (v, c)) (hc : pt' c = some (w, 0))
    (hl : ∀ x ∈ l, pt' x.1 = pt x.1) : Seg pt' p (l ++ [(a, v)] ++ [(c, w)]) 0 := by
  obtain ⟨m, hs₁, hs⟩ := append_iff.mp h
  obtain ⟨rfl, -⟩ := cons_iff.mp hs
  rw [List.append_assoc]
  refine append_iff.mpr ⟨m, hs₁.congr hl, ?_⟩
  exact .cons ha (.cons hc (.nil 0))

/-- Unlinking the node `a` behind its predecessor `b`. -/
theorem unlink {p r a b q : Addr} {u v : α} {l₁ l₂ : List (Addr × α)}
    (h : Seg pt p (l₁ ++ (b, u) :: (a, v) :: l₂) r) (hq : pt a = some (v, q))
    (hb : pt' b = some (u, q)) (h₁ : ∀ x ∈ l₁, pt' x.1 = pt x.1)
    (h₂ : ∀ x ∈ l₂, pt' x.1 = pt x.1) : Seg pt' p (l₁ ++ (b, u) :: l₂) r := by
  obtain ⟨m, hs₁, hs⟩ := append_iff.mp h
  obtain ⟨rfl, q₁, -, hs⟩ := cons_iff.mp hs
  obtain ⟨rfl, q₂, hpt, hs₂⟩ := cons_iff.mp hs
  obtain rfl : q₂ = q := (Prod.mk.inj (Option.some.inj (hpt.symm.trans hq))).2
  exact append_iff.mpr ⟨m, hs₁.congr h₁, cons_iff.mpr ⟨rfl, q₂, hb, hs₂.congr h₂⟩⟩

end Seg

/-! ### The search loop -/

/-- `for (p = …, last = …; p != NULL; p = p->next) { if (hit p) break; last = p; }`: the
    values of `p` and `last` when the loop ends.  `none` when a node cannot be read or the
    fuel is used up. -/
def walk (next : Addr → Option Addr) (hit : Addr → Option Bool) :
    Nat → Addr → Addr → Option (Addr × Addr)
  | 0, _, _ => none
  | fuel + 1, p, last =>
    if p = 0 then some (p, last)
    else do
      if ← hit p then return (p, last)
      walk next hit fuel (← next p) p

variable {pt : Addr → Option (α × Addr)} {next : Addr → Option Addr}
  {hit : Addr → Option Bool}

/-- The loop passes over nodes it does not stop at, remembering the last one. -/
theorem walk_skip (h0 : pt 0 = none) (hnext : ∀ a v q, pt a = some (v, q) → next a = some q)
    {p q : Addr} {l : List (Addr × α)} (h : Seg pt p l q)
    (hmiss : ∀ x ∈ l, hit x.1 = some false) (fuel : Nat) (last : Addr) :
    walk next hit (fuel + l.length) p last
      = walk next hit fuel q ((l.map Prod.fst).getLastD last) := by
  induction h generalizing last with
  | nil p => rfl
  | @cons a v q r l hpt _ ih =>
    have ha : a ≠ 0 := by rintro rfl; rw [h0] at hpt; cases hpt
    have hh : hit a = some false := hmiss _ List.mem_cons_self
    rw [List.length_cons, ← Nat.add_assoc, walk]
    rw [if_neg ha]
    simp only [hh, hnext a v q hpt, Option.bind_eq_bind, Option.bind_some, Bool.false_eq_true,
      if_false, List.map_cons, List.getLastD_cons]
    exact ih (fun x hx => hmiss x (List.mem_cons_of_mem _ hx)) a

/-- **Search hit.**  The loop stops at the first node that matches, with `last` at the
    node in front of it (or where the loop started). -/
theorem walk_hit (h0 : pt 0 = none) (hnext : ∀ a v q, pt a = some (v, q) → next a = some q)
    {p r a : Addr} {v : α} {l₁ l₂ : List (Addr × α)} (h : Seg pt p (l₁ ++ (a, v) :: l₂) r)
    (hmiss : ∀ x ∈ l₁, hit x.1 = some false) (hhit : hit a = some true) {fuel : Nat}
    (hf : l₁.length < fuel) (last : Addr) :
    walk next hit fuel p last = some (a, (l₁.map Prod.fst).getLastD last) := by
  obtain ⟨q, hs₁, hs⟩ := Seg.append_iff.mp h
  obtain ⟨rfl, q', hpt, -⟩ := Seg.cons_iff.mp hs
  have ha : q ≠ 0 := by rintro rfl; rw [h0] at hpt; cases hpt
  obtain ⟨k, rfl⟩ : ∃ k, fuel = k + 1 + l₁.length := ⟨fuel - l₁.length - 1, by omega⟩
  rw [walk_skip h0 hnext hs₁ hmiss (k + 1) last, walk, if_neg ha]
  simp [hhit]

/-- **Search miss.**  When no node matches the loop runs off the end, with `last` at the
    last node. -/
theorem walk_miss (h0 : pt 0 = none) (hnext : ∀ a v q, pt a = some (v, q) → next a = some q)
    {p : Addr} {l : List (Addr × α)} (h : Seg pt p l 0)
    (hmiss : ∀ x ∈ l, hit x.1 = some false) {fuel : Nat} (hf : l.length < fuel)
    (last : Addr) :
    walk next hit fuel p last = some (0, (l.map Prod.fst).getLastD last) := by
  obtain ⟨k, rfl⟩ : ∃ k, fuel = k + 1 + l.length := ⟨fuel - l.length - 1, by omega⟩
  rw [walk_skip h0 hnext h hmiss (k + 1) last, walk, if_pos rfl]

end Ecos.Lib
