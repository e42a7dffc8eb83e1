import Ecos.Lib.Heap

namespace Ecos.Lib

/-!
# Reference-counted objects on a list

A C module that keeps one object for each key on a linked list, counts the pointers to it, and
frees it with the last one.

* `RefList` — the objects on the list: their addresses are different, and so are their keys;
* `RefList.acquire`, `RefList.release` — look an object up or make it; give a pointer to it back;
* `RefList.Counted` — every object has as many references as it has holders;
* `Counted.acquire`, `Counted.release` — the two operations keep the count.
-/

universe u v w

/-- An object on the list: its address, its key, its reference count and the rest of it. -/
structure RefObj (κ : Type u) (β : Type v) where
  addr : Addr
  key : κ
  nRef : Nat
  val : β
  deriving DecidableEq, Repr

/-- The objects on the list, the newest one first. -/
structure RefList (κ : Type u) (β : Type v) where
  objs : List (RefObj κ β)
  addrs : (objs.map RefObj.addr).Nodup
  keys : (objs.map RefObj.key).Nodup

variable {κ : Type u} {β : Type v} {ι : Type w}

namespace RefList

/-- The list without objects, as the program starts with it. -/
def empty : RefList κ β := ⟨[], List.nodup_nil, List.nodup_nil⟩

/-- The object at an address, if the list has one there. -/
def get (l : RefList κ β) (a : Addr) : Option (RefObj κ β) := l.objs.find? fun o => o.addr = a

/-- Change the object at an address: its count by `f`, its contents by `g`, but not its key. -/
def change (l : RefList κ β) (a : Addr) (f : Nat → Nat) (g : β → β) : RefList κ β where
  objs := l.objs.map fun o => if o.addr = a then { o with nRef := f o.nRef, val := g o.val } else o
  addrs := by
    have haddr : (RefObj.addr ∘ fun o : RefObj κ β =>
        if o.addr = a then { o with nRef := f o.nRef, val := g o.val } else o) = RefObj.addr := by
      ext o
      rw [Function.comp_apply]
      split <;> rfl
    rw [List.map_map, haddr]
    exact l.addrs
  keys := by
    have hkey : (RefObj.key ∘ fun o : RefObj κ β =>
        if o.addr = a then { o with nRef := f o.nRef, val := g o.val } else o) = RefObj.key := by
      ext o
      rw [Function.comp_apply]
      split <;> rfl
    rw [List.map_map, hkey]
    exact l.keys

/-- Take an object off the list; the keys and addresses of the others stay different. -/
def remove (l : RefList κ β) (a : Addr) : RefList κ β where
  objs := l.objs.filter fun o => o.addr ≠ a
  addrs := l.addrs.sublist (List.filter_sublist.map _)
  keys := l.keys.sublist (List.filter_sublist.map _)

/-- Put a new object in front of the list. -/
def insert (l : RefList κ β) (o : RefObj κ β) (ha : o.addr ∉ l.objs.map RefObj.addr)
    (hk : o.key ∉ l.objs.map RefObj.key) : RefList κ β where
  objs := o :: l.objs
  addrs := List.nodup_cons.mpr ⟨ha, l.addrs⟩
  keys := List.nodup_cons.mpr ⟨hk, l.keys⟩

/-- A reference to the object with the key `k`, which is made if there is none.  `a` is the
    allocator's answer for a new object; the call fails if that is `NULL` or in use. -/
def acquire [DecidableEq κ] (l : RefList κ β) (k : κ) (a : Addr) (v : β) :
    Option (Addr × RefList κ β) :=
  match l.objs.find? fun o => o.key = k with
  | some o => some (o.addr, l.change o.addr (· + 1) id)
  | none =>
    if h : (a ≠ 0 ∧ a ∉ l.objs.map RefObj.addr) ∧ k ∉ l.objs.map RefObj.key then
      some (a, l.insert ⟨a, k, 1, v⟩ h.1.2 h.2)
    else none

/-- Give a reference back; the object is freed with the last one. -/
def release (l : RefList κ β) (a : Addr) : Option (RefList κ β) := do
  let o ← l.get a
  return if o.nRef = 1 then l.remove a else l.change a (· - 1) id

/-! ### Objects by their addresses -/

variable {l l' : RefList κ β} {a b : Addr} {o o' : RefObj κ β} {k : κ} {v : β}

/-- An object is found by its address, since no two of them have the same one. -/
theorem get_eq_some : l.get a = some o ↔ o ∈ l.objs ∧ o.addr = a := by
  constructor
  · intro h
    refine ⟨List.mem_of_find?_eq_some h, ?_⟩
    simpa using List.find?_some h
  · rintro ⟨ho, rfl⟩
    obtain ⟨x, hx⟩ : ∃ x, l.get o.addr = some x := by
      cases hget : l.get o.addr with
      | some x => exact ⟨x, rfl⟩
      | none =>
        have hnone := List.find?_eq_none.mp hget o ho
        simp at hnone
    -- the addresses are different
    have hmem := List.mem_of_find?_eq_some hx
    have haddr : x.addr = o.addr := by simpa using List.find?_some hx
    rw [hx, List.inj_on_of_nodup_map l.addrs hmem ho haddr]

/-- Two objects of the list with the same key are one object. -/
theorem eq_of_key (h : o ∈ l.objs) (h' : o' ∈ l.objs) (hkey : o.key = o'.key) : o = o' :=
  List.inj_on_of_nodup_map l.keys h h' hkey

/-- None is found at an address exactly when no object of the list is there. -/
theorem get_eq_none : l.get a = none ↔ ∀ o ∈ l.objs, o.addr ≠ a := by
  simp [get]

/-- Nothing is found in the empty list, at any address. -/
@[simp] theorem get_empty (a : Addr) : (empty : RefList κ β).get a = none := rfl

/-- A change to the object at `a`, seen by a lookup. -/
theorem get_change (l : RefList κ β) (a : Addr) (f : Nat → Nat) (g : β → β) (b : Addr) :
    (l.change a f g).get b =
      if b = a then (l.get b).map fun o => { o with nRef := f o.nRef, val := g o.val }
      else l.get b := by
  ext x
  rw [get_eq_some]
  show x ∈ l.objs.map _ ∧ x.addr = b ↔ _
  rw [List.mem_map]
  split
  · rename_i hb
    rw [Option.map_eq_some_iff]
    constructor
    · rintro ⟨⟨o, ho, rfl⟩, haddr⟩
      split at haddr
      · exact ⟨o, get_eq_some.mpr ⟨ho, haddr⟩, by rw [if_pos (haddr.trans hb)]⟩
      · exact absurd (haddr.trans hb) ‹_›
    -- the object is looked for at the address where it was changed
    · rintro ⟨o, ho, rfl⟩
      obtain ⟨ho, haddr⟩ := get_eq_some.mp ho
      exact ⟨⟨o, ho, by rw [if_pos (haddr.trans hb)]⟩, haddr⟩
  · rename_i hb
    rw [get_eq_some]
    constructor
    · rintro ⟨⟨o, ho, rfl⟩, haddr⟩
      split at haddr
      · rename_i ha
        exact absurd (haddr.symm.trans ha) hb
      · rename_i ha
        rw [if_neg ha]
        exact ⟨ho, haddr⟩
    · rintro ⟨hx, rfl⟩
      exact ⟨⟨x, hx, by rw [if_neg hb]⟩, rfl⟩

/-- What is found when the object at `a` is gone. -/
theorem get_remove (l : RefList κ β) (a b : Addr) :
    (l.remove a).get b = if b = a then none else l.get b := by
  ext x
  rw [get_eq_some]
  show x ∈ l.objs.filter _ ∧ x.addr = b ↔ _
  rw [List.mem_filter, decide_eq_true_iff]
  split
  · rename_i hb
    constructor
    · rintro ⟨⟨-, hne⟩, haddr⟩
      exact absurd (haddr.trans hb) hne
    · exact nofun
  · rename_i hb
    rw [get_eq_some]
    constructor
    · rintro ⟨⟨hx, -⟩, haddr⟩
      exact ⟨hx, haddr⟩
    · rintro ⟨hx, haddr⟩
      exact ⟨⟨hx, by rw [haddr]; exact hb⟩, haddr⟩

/-- What is found when an object was added: that object at its address, and what was there
    elsewhere. -/
theorem get_insert (l : RefList κ β) (o : RefObj κ β) (ha : o.addr ∉ l.objs.map RefObj.addr)
    (hk : o.key ∉ l.objs.map RefObj.key) (b : Addr) :
    (l.insert o ha hk).get b = if b = o.addr then some o else l.get b := by
  show List.find? _ (o :: l.objs) = _
  rw [List.find?_cons]
  by_cases hb : b = o.addr
  · rw [if_pos hb, hb]
    simp
  · rw [if_neg hb, decide_eq_false (Ne.symm hb)]
    rfl

/-- **What `acquire` does**: it finds the object with the key, or makes it. -/
theorem acquire_cases [DecidableEq κ] (h : l.acquire k a v = some (b, l')) :
    (∃ o, l.get b = some o ∧ o.key = k ∧
      ∀ x, l'.get x = if x = b then some { o with nRef := o.nRef + 1 } else l.get x) ∨
    (b = a ∧ a ≠ 0 ∧ l.get a = none ∧ (∀ x o, l.get x = some o → o.key ≠ k) ∧
      ∀ x, l'.get x = if x = a then some ⟨a, k, 1, v⟩ else l.get x) := by
  unfold acquire at h
  split at h
  · rename_i o hfind
    obtain ⟨rfl, rfl⟩ := Prod.mk.inj (Option.some.inj h)
    have hkey : o.key = k := by simpa using List.find?_some hfind
    have hget : l.get o.addr = some o :=
      get_eq_some.mpr ⟨List.mem_of_find?_eq_some hfind, rfl⟩
    refine Or.inl ⟨o, hget, hkey, fun x => ?_⟩
    rw [get_change]
    split
    · rename_i hx
      rw [hx, hget]
      rfl
    · rfl
  · rename_i hfind
    split at h
    · rename_i hnew
      obtain ⟨rfl, rfl⟩ := Prod.mk.inj (Option.some.inj h)
      refine Or.inr ⟨rfl, hnew.1.1, ?_, fun x o ho hk => ?_, fun x => get_insert l _ _ _ x⟩
      · rw [get_eq_none]
        intro o ho haddr
        exact hnew.1.2 (haddr ▸ List.mem_map_of_mem ho)
      · obtain ⟨ho, -⟩ := get_eq_some.mp ho
        exact hnew.2 (hk ▸ List.mem_map_of_mem ho)
    · cases h

/-- **What `release` does**: it drops a reference, and the object with the last one. -/
theorem release_cases (h : l.release a = some l') : ∃ o, l.get a = some o ∧
    (o.nRef = 1 ∧ (∀ x, l'.get x = if x = a then none else l.get x) ∨
      o.nRef ≠ 1 ∧ ∀ x, l'.get x = if x = a then some { o with nRef := o.nRef - 1 }
        else l.get x) := by
  obtain ⟨o, ho, h⟩ := Option.bind_eq_some_iff.mp h
  obtain rfl := Option.some.inj h
  refine ⟨o, ho, ?_⟩
  by_cases hone : o.nRef = 1
  · refine Or.inl ⟨hone, fun x => ?_⟩
    rw [if_pos hone]
    exact get_remove l a x
  · refine Or.inr ⟨hone, fun x => ?_⟩
    rw [if_neg hone, get_change]
    split
    · rename_i hx
      rw [hx, ho]
      rfl
    · rfl

/-- The object that was acquired is in the list afterwards, under the key that was asked for. -/
theorem acquire_get [DecidableEq κ] (h : l.acquire k a v = some (b, l')) :
    ∃ o, l'.get b = some o ∧ o.key = k := by
  rcases acquire_cases h with ⟨o, -, hk, hget⟩ | ⟨rfl, -, -, -, hget⟩
  · refine ⟨{ o with nRef := o.nRef + 1 }, ?_, hk⟩
    rw [hget, if_pos rfl]
  · refine ⟨⟨b, k, 1, v⟩, ?_, rfl⟩
    rw [hget, if_pos rfl]

/-- `acquire` keeps the objects: each is found at its address, with its key and contents. -/
theorem acquire_kept [DecidableEq κ] (h : l.acquire k a v = some (b, l')) {x : Addr}
    (hx : l.get x = some o) : ∃ o', l'.get x = some o' ∧ o'.key = o.key ∧ o'.val = o.val := by
  rcases acquire_cases h with ⟨o₁, ho₁, -, hget⟩ | ⟨rfl, -, hnone, -, hget⟩
  · rw [hget]
    split
    · rename_i hb
      rw [hb, ho₁] at hx
      obtain rfl := Option.some.inj hx
      exact ⟨_, rfl, rfl, rfl⟩
    · exact ⟨o, hx, rfl, rfl⟩
  · rw [hget]
    split
    · rename_i hb
      rw [hb, hnone] at hx
      cases hx
    · exact ⟨o, hx, rfl, rfl⟩

/-- An object after `acquire` was there before, or is the new one. -/
theorem acquire_old [DecidableEq κ] (h : l.acquire k a v = some (b, l')) {x : Addr}
    (hx : l'.get x = some o') : (∃ o, l.get x = some o ∧ o.key = o'.key ∧ o.val = o'.val) ∨
      (x = b ∧ l.get x = none ∧ o'.key = k ∧ o'.val = v) := by
  rcases acquire_cases h with ⟨o₁, ho₁, -, hget⟩ | ⟨rfl, -, hnone, -, hget⟩
  · rw [hget] at hx
    split at hx
    · rename_i hb
      obtain rfl := Option.some.inj hx
      exact Or.inl ⟨o₁, by rw [hb]; exact ho₁, rfl, rfl⟩
    · exact Or.inl ⟨o', hx, rfl, rfl⟩
  · rw [hget] at hx
    split at hx
    · rename_i hb
      obtain rfl := Option.some.inj hx
      exact Or.inr ⟨hb, by rw [hb]; exact hnone, rfl, rfl⟩
    · exact Or.inl ⟨o', hx, rfl, rfl⟩

/-- An object that is there after `release` was there before, with the same key and contents. -/
theorem release_old (h : l.release a = some l') {x : Addr} (hx : l'.get x = some o') :
    ∃ o, l.get x = some o ∧ o.key = o'.key ∧ o.val = o'.val := by
  obtain ⟨o, ho, ⟨-, hget⟩ | ⟨-, hget⟩⟩ := release_cases h
  · rw [hget] at hx
    split at hx
    · cases hx
    · exact ⟨o', hx, rfl, rfl⟩
  · rw [hget] at hx
    split at hx
    · rename_i ha
      obtain rfl := Option.some.inj hx
      exact ⟨o, by rw [ha]; exact ho, rfl, rfl⟩
    · exact ⟨o', hx, rfl, rfl⟩

/-! ### Holders -/

/-- **The references are counted.**  `held i` is the object that `i` has a pointer to. -/
structure Counted (l : RefList κ β) (held : ι → Option Addr) : Prop where
  /-- An object has a holder, and as many references as holders. -/
  refs : ∀ a o, l.get a = some o →
    ∃ S : Finset ι, (∀ i, i ∈ S ↔ held i = some a) ∧ S.card = o.nRef ∧ S.Nonempty
  /-- An object with a holder is on the list. -/
  live : ∀ i a, held i = some a → (l.get a).isSome

variable {held : ι → Option Addr} {i : ι}

/-- The empty list counts no holders, and there are none at the start. -/
theorem counted_empty : Counted (empty : RefList κ β) fun _ : ι => none :=
  ⟨nofun, nofun⟩

/-- What is held is there: the object at an address that somebody holds has not been freed. -/
theorem Counted.get (h : Counted l held) (hi : held i = some a) : ∃ o, l.get a = some o :=
  Option.isSome_iff_exists.mp (h.live i a hi)

/-- A change of the contents keeps the count, since it leaves every `nRef` alone. -/
theorem Counted.change (h : Counted l held) (a : Addr) (g : β → β) :
    Counted (l.change a id g) held := by
  refine ⟨fun b o ho => ?_, fun i b hi => ?_⟩
  · rw [get_change] at ho
    split at ho
    · obtain ⟨x, hx, rfl⟩ := Option.map_eq_some_iff.mp ho
      exact h.refs b x hx
    · exact h.refs b o ho
  · obtain ⟨o, ho⟩ := h.get hi
    rw [get_change, ho]
    split
    · rfl
    · rfl

/-- It is enough to look at one object, when the others are as before and have the holders they
    had. -/
theorem Counted.of_one {held' : ι → Option Addr} (h : Counted l held)
    (hget : ∀ x, x ≠ a → l'.get x = l.get x)
    (hheld : ∀ x, x ≠ a → ∀ j, held' j = some x ↔ held j = some x)
    (hrefs : ∀ o, l'.get a = some o →
      ∃ S : Finset ι, (∀ j, j ∈ S ↔ held' j = some a) ∧ S.card = o.nRef ∧ S.Nonempty)
    (hlive : ∀ j, held' j = some a → (l'.get a).isSome) : Counted l' held' := by
  refine ⟨fun x o ho => ?_, fun j x hj => ?_⟩
  · by_cases hx : x = a
    · subst hx
      exact hrefs o ho
    · rw [hget x hx] at ho
      obtain ⟨S, hS, hcard, hne⟩ := h.refs x o ho
      exact ⟨S, fun j => (hS j).trans (hheld x hx j).symm, hcard, hne⟩
  · by_cases hx : x = a
    · subst hx
      exact hlive j hj
    · rw [hget x hx]
      exact h.live j x ((hheld x hx j).mp hj)

variable [DecidableEq ι]

/-- A new holder is counted at the object that `acquire` gave it. -/
theorem Counted.acquire [DecidableEq κ] (h : Counted l held) (hi : held i = none)
    (hacq : l.acquire k a v = some (b, l')) :
    Counted l' (Function.update held i (some b)) := by
  -- the holders of the other objects are as before
  have hother : ∀ x, x ≠ b → ∀ j,
      Function.update held i (some b) j = some x ↔ held j = some x := by
    intro x hx j
    by_cases hj : j = i
    · subst hj
      rw [Function.update_self, hi]
      exact ⟨fun heq => absurd (Option.some.inj heq).symm hx, nofun⟩
    · rw [Function.update_of_ne hj]
  have hthis : ∀ j, Function.update held i (some b) j = some b ↔ j = i ∨ held j = some b := by
    intro j
    by_cases hj : j = i
    · subst hj
      simp
    · rw [Function.update_of_ne hj]
      simp [hj]
  rcases acquire_cases hacq with ⟨o, ho, -, hget⟩ | ⟨rfl, -, hnone, -, hget⟩
  · -- one more reference to an object of the list
    have hb := hget b
    rw [if_pos rfl] at hb
    refine h.of_one (fun x hx => by rw [hget, if_neg hx]) hother (fun o' ho' => ?_) fun j _ => ?_
    · rw [hb] at ho'
      obtain rfl := Option.some.inj ho'
      obtain ⟨S, hS, hcard, hne⟩ := h.refs b o ho
      have hnot : i ∉ S := by
        rw [hS, hi]
        nofun
      refine ⟨Insert.insert i S, fun j => ?_, ?_, Finset.insert_nonempty i S⟩
      · rw [Finset.mem_insert, hS, hthis]
      · rw [Finset.card_insert_of_notMem hnot, hcard]
    · rw [hb]
      rfl
  · -- a new object, which nobody held
    have hb := hget b
    rw [if_pos rfl] at hb
    refine h.of_one (fun x hx => by rw [hget, if_neg hx]) hother (fun o' ho' => ?_) fun j _ => ?_
    · rw [hb] at ho'
      obtain rfl := Option.some.inj ho'
      refine ⟨{i}, fun j => ?_, rfl, Finset.singleton_nonempty i⟩
      rw [Finset.mem_singleton, hthis]
      constructor
      · exact Or.inl
      · rintro (hj | hj)
        · exact hj
        · have hlive := h.live j b hj
          rw [hnone] at hlive
          cases hlive
    · rw [hb]
      rfl

/-- A holder gives its reference back, and is no longer counted. -/
theorem Counted.release (h : Counted l held) (hi : held i = some a)
    (hrel : l.release a = some l') : Counted l' (Function.update held i none) := by
  have hother : ∀ x j, Function.update held i none j = some x ↔ j ≠ i ∧ held j = some x := by
    intro x j
    by_cases hj : j = i
    · subst hj
      simp
    · rw [Function.update_of_ne hj]
      simp [hj]
  -- the holders of another object do not change
  have hsame : ∀ x, x ≠ a → ∀ j, Function.update held i none j = some x ↔ held j = some x := by
    intro x hx j
    rw [hother]
    refine ⟨And.right, fun hj => ⟨?_, hj⟩⟩
    rintro rfl
    rw [hi] at hj
    exact hx (Option.some.inj hj).symm
  obtain ⟨o, ho, hcase⟩ := release_cases hrel
  obtain ⟨S, hS, hcard, hne⟩ := h.refs a o ho
  have hmem : i ∈ S := (hS i).mpr hi
  have hget : ∀ x, x ≠ a → l'.get x = l.get x := by
    intro x hx
    rcases hcase with ⟨-, hget⟩ | ⟨-, hget⟩
    · rw [hget, if_neg hx]
    · rw [hget, if_neg hx]
  have herase : (S.erase i).card = o.nRef - 1 := by rw [Finset.card_erase_of_mem hmem, hcard]
  refine h.of_one hget hsame (fun o' ho' => ?_) fun j hj => ?_
  · rcases hcase with ⟨-, hget'⟩ | ⟨hone, hget'⟩
    · rw [hget', if_pos rfl] at ho'
      cases ho'
    · rw [hget', if_pos rfl] at ho'
      obtain rfl := Option.some.inj ho'
      refine ⟨S.erase i, fun j => ?_, herase, ?_⟩
      · rw [Finset.mem_erase, hS, hother]
      · apply Finset.card_pos.mp
        have hpos := Finset.card_pos.mpr hne
        omega
  · obtain ⟨hji, hj⟩ := (hother a j).mp hj
    rcases hcase with ⟨hone, -⟩ | ⟨-, hget'⟩
    · -- the last holder was `i`
      have hlast : (S.erase i).card = 0 := by omega
      have hj' : j ∈ S.erase i := Finset.mem_erase.mpr ⟨hji, (hS j).mpr hj⟩
      rw [Finset.card_eq_zero.mp hlast] at hj'
      cases hj'
    · rw [hget', if_pos rfl]
      rfl

end RefList

end Ecos.Lib
