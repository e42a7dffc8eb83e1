import Ecos.Posix.RegistryInvariant

namespace Ecos.Posix

open Ecos.Lib

/-!
# Named semaphores refine the POSIX namespace

What the named-semaphore calls are for: a map from names to semaphore objects, and the
objects that were unlinked while open.  Objects have identities that are never used again,
whatever `malloc` does with their memory.

* `Namespace`, `NsStep` — the abstract state and its steps, one constructor per clause;
* `Abstracts` — how a list of named semaphores stands for a namespace;
* `refinement` — every run of the module is matched by a run of the namespace;
* `namespace_refinement` — with what the namespace guarantees: an unlinked object is not
  opened again, and an object disappears only when it is unlinked and not open.
-/

/-- The identity of a semaphore object: how many objects were created before it. -/
abbrev ObjId := Nat

/-- A semaphore object.  `node` and `buf` are the blocks `malloc` gave for it. -/
structure SemObject where
  node : Addr
  buf : Addr
  sem : CountingSemaphore
  opens : Nat
  deriving DecidableEq, Repr

/-- The address the object is known by to its users, the member `sem` of its record. -/
def SemObject.addr (o : SemObject) : Addr := semAddr o.node

/-- The abstract state: a map from names to objects, and the objects, those included that were
    unlinked while open. -/
structure Namespace where
  /-- The object linked under a name. -/
  linked : List UInt8 → Option ObjId
  /-- The objects there are, linked or not. -/
  obj : ObjId → Option SemObject
  /-- The next identity. -/
  next : ObjId

namespace Namespace

/-- The namespace at the start: no names, no objects, and none created before. -/
def empty : Namespace := ⟨fun _ => none, fun _ => none, 0⟩

/-- Is `p` a block that no object uses? `malloc` gives only such. -/
def Unused (A : Namespace) (p : Addr) : Prop :=
  p ≠ 0 ∧ ∀ i o, A.obj i = some o → p ≠ o.node ∧ p ≠ o.buf

/-- Can a name buffer and an object be made of the blocks `buf` and `new`? -/
def Grants (A : Namespace) (buf new : Addr) : Prop :=
  A.Unused buf ∧ A.Unused new ∧ new ≠ buf

/-- Replace object `i`. -/
def setObj (A : Namespace) (i : ObjId) (o : SemObject) : Namespace :=
  { A with obj := Function.update A.obj i (some o) }

/-- Object `i` disappears. -/
def dropObj (A : Namespace) (i : ObjId) : Namespace :=
  { A with obj := Function.update A.obj i none }

/-- Nothing is linked under `n` any more. -/
def detach (A : Namespace) (n : List UInt8) : Namespace :=
  { A with linked := Function.update A.linked n none }

/-- A fresh object, linked under `n`. -/
def create (A : Namespace) (n : List UInt8) (o : SemObject) : Namespace where
  linked := Function.update A.linked n (some A.next)
  obj := Function.update A.obj A.next (some o)
  next := A.next + 1

/-- Is no name linked to object `i`? Then it can be closed but not opened. -/
def Detached (A : Namespace) (i : ObjId) : Prop := ∀ n, A.linked n ≠ some i

end Namespace

/-- A step of the namespace: the call, what it returned, and the object it concerned. -/
structure NsLabel where
  call : SemCall
  ret : SemRet
  object : Option ObjId

/-- What the caller sees of a step, which is what the module's own steps are labelled with. -/
def NsLabel.erase (b : NsLabel) : SemCall × SemRet := (b.call, b.ret)

variable {m : Nat}

/-- The steps of the namespace, one constructor for each outcome that a call can have. -/
inductive NsStep (semValueMax : Nat) : Namespace → NsLabel → Namespace → Prop
  | openEmpty {A name oflag value buf new} (hname : cstr name = []) :
      NsStep semValueMax A
        ⟨.semOpen name oflag value buf new, .ptr ⟨SEM_FAILED, some .EINVAL⟩, none⟩ A
  | openExcl {A name oflag value buf new i} (hlink : A.linked (cstr name) = some i)
      (hflag : (oflag.creat && oflag.excl) = true) :
      NsStep semValueMax A
        ⟨.semOpen name oflag value buf new, .ptr ⟨SEM_FAILED, some .EEXIST⟩, some i⟩ A
  | openLinked {A name oflag value buf new i o} (hlink : A.linked (cstr name) = some i)
      (hobj : A.obj i = some o) (hflag : (oflag.creat && oflag.excl) = false) :
      NsStep semValueMax A
        ⟨.semOpen name oflag value buf new, .ptr ⟨o.addr, none⟩, some i⟩
        (A.setObj i { o with opens := o.opens + 1 })
  | openNoEnt {A name oflag value buf new} (hname : cstr name ≠ [])
      (hlink : A.linked (cstr name) = none) (hflag : oflag.creat = false) :
      NsStep semValueMax A
        ⟨.semOpen name oflag value buf new, .ptr ⟨SEM_FAILED, some .ENOENT⟩, none⟩ A
  | openNoMem {A name oflag value buf new} (hname : cstr name ≠ [])
      (hlink : A.linked (cstr name) = none) (hflag : oflag.creat = true)
      (hmem : ¬A.Grants buf new) :
      NsStep semValueMax A
        ⟨.semOpen name oflag value buf new, .ptr ⟨SEM_FAILED, some .ENOMEM⟩, none⟩ A
  | openBadValue {A name oflag value buf new} (hname : cstr name ≠ [])
      (hlink : A.linked (cstr name) = none) (hflag : oflag.creat = true)
      (hmem : A.Grants buf new) (hvalue : semValueMax < value) :
      NsStep semValueMax A
        ⟨.semOpen name oflag value buf new, .ptr ⟨SEM_FAILED, some .EINVAL⟩, none⟩ A
  | openCreate {A name oflag value buf new} (hname : cstr name ≠ [])
      (hlink : A.linked (cstr name) = none) (hflag : oflag.creat = true)
      (hmem : A.Grants buf new) (hvalue : value ≤ semValueMax) :
      NsStep semValueMax A
        ⟨.semOpen name oflag value buf new, .ptr ⟨semAddr new, none⟩, some A.next⟩
        (A.create (cstr name) ⟨new, buf, .new value, 1⟩)
  | closeUnknown {A sem} (hmiss : ∀ i o, A.obj i = some o → sem ≠ o.addr) :
      NsStep semValueMax A ⟨.semClose sem, .int ⟨-1, some .EINVAL⟩, none⟩ A
  | closeBusy {A i o} (hobj : A.obj i = some o) (hlast : o.opens = 1) (hdet : A.Detached i)
      (hwait : o.sem.waiting ≠ 0) :
      NsStep semValueMax A ⟨.semClose o.addr, .int ⟨-1, some .EBUSY⟩, some i⟩ A
  | closeLast {A i o} (hobj : A.obj i = some o) (hlast : o.opens = 1) (hdet : A.Detached i)
      (hwait : o.sem.waiting = 0) :
      NsStep semValueMax A ⟨.semClose o.addr, .int ⟨0, none⟩, some i⟩ (A.dropObj i)
  | closeOpen {A i o} (hobj : A.obj i = some o) (hnot : ¬(o.opens = 1 ∧ A.Detached i)) :
      NsStep semValueMax A ⟨.semClose o.addr, .int ⟨0, none⟩, some i⟩
        (A.setObj i { o with opens := o.opens - 1 })
  | unlinkMissing {A name} (hlink : A.linked (cstr name) = none) :
      NsStep semValueMax A ⟨.semUnlink name, .int ⟨-1, some .ENOENT⟩, none⟩ A
  | unlinkBusy {A name i o} (hlink : A.linked (cstr name) = some i) (hobj : A.obj i = some o)
      (hzero : o.opens = 0) (hwait : o.sem.waiting ≠ 0) :
      NsStep semValueMax A ⟨.semUnlink name, .int ⟨-1, some .EBUSY⟩, some i⟩ A
  | unlinkIdle {A name i o} (hlink : A.linked (cstr name) = some i) (hobj : A.obj i = some o)
      (hzero : o.opens = 0) (hwait : o.sem.waiting = 0) :
      NsStep semValueMax A ⟨.semUnlink name, .int ⟨0, none⟩, some i⟩
        ((A.detach (cstr name)).dropObj i)
  | unlinkOpen {A name i o} (hlink : A.linked (cstr name) = some i) (hobj : A.obj i = some o)
      (hopen : o.opens ≠ 0) :
      NsStep semValueMax A ⟨.semUnlink name, .int ⟨0, none⟩, some i⟩ (A.detach (cstr name))
  | kernelMiss {A sem state} (hmiss : ∀ i o, A.obj i = some o → sem ≠ o.addr) :
      NsStep semValueMax A ⟨.kernel sem state, .none, none⟩ A
  | kernelHit {A i o state} (hobj : A.obj i = some o) :
      NsStep semValueMax A ⟨.kernel o.addr state, .none, some i⟩
        (A.setObj i { o with sem := state })

/-- The namespace as a transition system: the abstract specification of the module. -/
def nsSystem (semValueMax : Nat) : LTS Namespace NsLabel where
  init A := A = .empty
  step := NsStep semValueMax

/-! ### What a list of named semaphores stands for -/

/-- The object a record stands for, with its open count as a number. -/
def objOf (x : Addr × RegNode) : SemObject := ⟨x.1, x.2.buf, x.2.sem, x.2.openCount.toNat⟩

/-- The list `l` stands for the namespace `A`, the record at `a` for the object `id a`. -/
structure Abstracts (l : Registry) (id : Addr → ObjId) (A : Namespace) : Prop where
  obj : ∀ i o, A.obj i = some o ↔ ∃ x ∈ l, id x.1 = i ∧ objOf x = o
  linked : ∀ n i, A.linked n = some i ↔ n ≠ [] ∧ ∃ x ∈ l, x.2.name = n ∧ id x.1 = i
  inj : ∀ x ∈ l, ∀ y ∈ l, id x.1 = id y.1 → x = y
  fresh : ∀ x ∈ l, id x.1 < A.next

variable {l l₁ l₂ : Registry} {id : Addr → ObjId} {A A' : Namespace} {a : Addr}
  {v w : RegNode} {i : ObjId} {o : SemObject}

/-- A member of a list with one node singled out is that node, or one of the others. -/
theorem mem_middle {x : Addr × RegNode} :
    x ∈ l₁ ++ (a, v) :: l₂ ↔ x = (a, v) ∨ x ∈ l₁ ++ l₂ := by
  simp only [List.mem_append, List.mem_cons]
  tauto

/-- The object of a record is in the namespace, under the identity of the record's address. -/
theorem Abstracts.obj_of_mem (h : Abstracts l id A) {x : Addr × RegNode} (hx : x ∈ l) :
    A.obj (id x.1) = some (objOf x) := (h.obj _ _).mpr ⟨x, hx, rfl, rfl⟩

/-- A record with a name is linked under it. -/
theorem Abstracts.linked_of_mem (h : Abstracts l id A) {x : Addr × RegNode} (hx : x ∈ l)
    (hne : x.2.name ≠ []) : A.linked x.2.name = some (id x.1) :=
  (h.linked _ _).mpr ⟨hne, x, hx, rfl, rfl⟩

/-- A name that no record has is not linked, so that an open of it creates one. -/
theorem Abstracts.linked_eq_none (h : Abstracts l id A) {n : List UInt8}
    (hmiss : ∀ x ∈ l, x.2.name ≠ n) : A.linked n = none := by
  cases hlink : A.linked n with
  | none => rfl
  | some i =>
    obtain ⟨-, x, hx, hn, -⟩ := (h.linked n i).mp hlink
    exact absurd hn (hmiss x hx)

/-- The empty name is not linked: unlinked records have it. -/
theorem Abstracts.linked_nil (h : Abstracts l id A) : A.linked [] = none := by
  cases hlink : A.linked [] with
  | none => rfl
  | some i => exact absurd rfl ((h.linked [] i).mp hlink).1

/-- An address that no record has is no object's, so that a close of it is refused. -/
theorem Abstracts.ne_addr (h : Abstracts l id A) {sem : Addr}
    (hmiss : ∀ x ∈ l, sem ≠ semAddr x.1) : ∀ i o, A.obj i = some o → sem ≠ o.addr := by
  intro i o hobj
  obtain ⟨x, hx, -, rfl⟩ := (h.obj i o).mp hobj
  exact hmiss x hx

/-- The object of a record whose name is empty is detached, and only then. -/
theorem Abstracts.detached_iff (h : Abstracts (l₁ ++ (a, v) :: l₂) id A) :
    A.Detached (id a) ↔ v.name = [] := by
  have hmem : (a, v) ∈ l₁ ++ (a, v) :: l₂ := by simp
  constructor
  · intro hdet
    by_contra hne
    exact hdet _ (h.linked_of_mem hmem hne)
  · intro hempty n hlink
    obtain ⟨hne, x, hx, hn, hid⟩ := (h.linked n _).mp hlink
    obtain rfl := h.inj x hx _ hmem hid
    exact hne (hn.symm.trans hempty)

/-- A block is unused by the objects when it is none of the list's. -/
theorem Abstracts.unused_iff (h : Abstracts l id A) {p : Addr} :
    A.Unused p ↔ p ≠ 0 ∧ p ∉ l.blocks := by
  rw [Registry.mem_blocks]
  constructor
  · rintro ⟨hp, hun⟩
    refine ⟨hp, ?_⟩
    rintro ⟨x, hx, hpx⟩
    obtain ⟨h₁, h₂⟩ := hun _ _ (h.obj_of_mem hx)
    exact hpx.elim h₁ h₂
  · rintro ⟨hp, hun⟩
    refine ⟨hp, fun i o hobj => ?_⟩
    obtain ⟨x, hx, -, rfl⟩ := (h.obj i o).mp hobj
    exact ⟨fun hpx => hun ⟨x, hx, Or.inl hpx⟩, fun hpx => hun ⟨x, hx, Or.inr hpx⟩⟩

/-- A node with `P` is the one singled out, or one of the others. -/
theorem exists_middle {P : Addr × RegNode → Prop} :
    (∃ x ∈ l₁ ++ (a, v) :: l₂, P x) ↔ P (a, v) ∨ ∃ x ∈ l₁ ++ l₂, P x := by
  simp only [mem_middle, or_and_right, exists_or, exists_eq_left]

/-- The other records stand for other objects, so that a change of one is a change of no other. -/
theorem Abstracts.id_ne (h : Abstracts (l₁ ++ (a, v) :: l₂) id A)
    (hne : ∀ x ∈ l₁ ++ l₂, x.1 ≠ a) {x : Addr × RegNode} (hx : x ∈ l₁ ++ l₂) :
    id x.1 ≠ id a := by
  intro hid
  have hxa := h.inj x (mem_middle.mpr (Or.inr hx)) (a, v) (by simp) hid
  exact hne x hx (by rw [hxa])

/-- Rewriting the contents of a record rewrites its object, and no other. -/
theorem Abstracts.obj_set (h : Abstracts (l₁ ++ (a, v) :: l₂) id A)
    (hne : ∀ x ∈ l₁ ++ l₂, x.1 ≠ a) (i : ObjId) (o : SemObject) :
    (A.setObj (id a) (objOf (a, w))).obj i = some o ↔
      ∃ x ∈ l₁ ++ (a, w) :: l₂, id x.1 = i ∧ objOf x = o := by
  rw [exists_middle]
  by_cases hi : id a = i
  · subst hi
    have hother : ¬∃ x ∈ l₁ ++ l₂, id x.1 = id a ∧ objOf x = o := by
      rintro ⟨x, hx, hid, -⟩
      exact h.id_ne hne hx hid
    rw [or_iff_left hother]
    simp [Namespace.setObj]
  · have hold := h.obj i o
    rw [exists_middle] at hold
    simpa [Namespace.setObj, Function.update_of_ne (Ne.symm hi), hi] using hold

/-- Dropping a record drops its object, and no other. -/
theorem Abstracts.obj_drop (h : Abstracts (l₁ ++ (a, v) :: l₂) id A)
    (hne : ∀ x ∈ l₁ ++ l₂, x.1 ≠ a) (i : ObjId) (o : SemObject) :
    (A.dropObj (id a)).obj i = some o ↔ ∃ x ∈ l₁ ++ l₂, id x.1 = i ∧ objOf x = o := by
  by_cases hi : id a = i
  · subst hi
    have hother : ¬∃ x ∈ l₁ ++ l₂, id x.1 = id a ∧ objOf x = o := by
      rintro ⟨x, hx, hid, -⟩
      exact h.id_ne hne hx hid
    simp only [Namespace.dropObj, Function.update_self, reduceCtorEq, false_iff]
    exact hother
  · have hold := h.obj i o
    rw [exists_middle] at hold
    simpa [Namespace.dropObj, Function.update_of_ne (Ne.symm hi), hi] using hold

/-- The identities of a list whose record at `a` is rewritten are as distinct as before. -/
theorem Abstracts.ids_set (h : Abstracts (l₁ ++ (a, v) :: l₂) id A)
    (hne : ∀ x ∈ l₁ ++ l₂, x.1 ≠ a) :
    (∀ x ∈ l₁ ++ (a, w) :: l₂, ∀ y ∈ l₁ ++ (a, w) :: l₂, id x.1 = id y.1 → x = y) ∧
      ∀ x ∈ l₁ ++ (a, w) :: l₂, id x.1 < A.next := by
  refine ⟨fun x hx y hy hid => ?_, fun x hx => ?_⟩
  · rcases mem_middle.mp hx with rfl | hx <;> rcases mem_middle.mp hy with rfl | hy
    · rfl
    · exact absurd hid.symm (h.id_ne hne hy)
    · exact absurd hid (h.id_ne hne hx)
    · exact h.inj x (mem_middle.mpr (Or.inr hx)) y (mem_middle.mpr (Or.inr hy)) hid
  · rcases mem_middle.mp hx with rfl | hx
    · exact h.fresh (a, v) (by simp)
    · exact h.fresh x (mem_middle.mpr (Or.inr hx))

/-- Rewriting a record that keeps its name is rewriting its object. -/
theorem Abstracts.setObj (h : Abstracts (l₁ ++ (a, v) :: l₂) id A)
    (hne : ∀ x ∈ l₁ ++ l₂, x.1 ≠ a) (hname : w.name = v.name) (ho : objOf (a, w) = o) :
    Abstracts (l₁ ++ (a, w) :: l₂) id (A.setObj (id a) o) := by
  subst ho
  obtain ⟨hinj, hfresh⟩ := h.ids_set (w := w) hne
  refine ⟨h.obj_set hne, fun n i => ?_, hinj, hfresh⟩
  have hold := h.linked n i
  rw [exists_middle] at hold ⊢
  rw [hname]
  exact hold

/-- What is linked when the record found under a name no longer has it. -/
theorem Abstracts.linked_detach (h : Abstracts (l₁ ++ (a, v) :: l₂) id A)
    (hne : ∀ x ∈ l₁ ++ l₂, x.1 ≠ a) (hv : v.name ≠ []) (n : List UInt8) (i : ObjId) :
    (A.detach v.name).linked n = some i ↔
      n ≠ [] ∧ ∃ x ∈ l₁ ++ l₂, x.2.name = n ∧ id x.1 = i := by
  have hlink := h.linked_of_mem (x := (a, v)) (by simp) hv
  by_cases hn : n = v.name
  · subst hn
    simp only [Namespace.detach, Function.update_self, reduceCtorEq, false_iff]
    rintro ⟨-, x, hx, hxn, -⟩
    have hx' := h.linked_of_mem (mem_middle.mpr (Or.inr hx)) (hxn ▸ hv)
    rw [hxn, hlink] at hx'
    exact h.id_ne hne hx (Option.some.inj hx').symm
  · have hold := h.linked n i
    rw [exists_middle] at hold
    simpa [Namespace.detach, Function.update_of_ne hn, Ne.symm hn] using hold

/-- Emptying the name of a record detaches its object: how the code unlinks one that is open. -/
theorem Abstracts.detach (h : Abstracts (l₁ ++ (a, v) :: l₂) id A)
    (hne : ∀ x ∈ l₁ ++ l₂, x.1 ≠ a) (hv : v.name ≠ []) :
    Abstracts (l₁ ++ (a, { v with name := [] }) :: l₂) id (A.detach v.name) := by
  obtain ⟨hinj, hfresh⟩ := h.ids_set (w := { v with name := [] }) hne
  refine ⟨fun i o => ?_, fun n i => ?_, hinj, hfresh⟩
  · have hold := h.obj i o
    rw [exists_middle] at hold ⊢
    exact hold
  · rw [h.linked_detach hne hv, exists_middle]
    refine and_congr_right fun hn => ?_
    have hnot : ¬(([] : List UInt8) = n ∧ id a = i) := fun hc => hn hc.1.symm
    simp only [hnot, false_or]

/-- Dropping a record that has no name is dropping its object. -/
theorem Abstracts.dropObj (h : Abstracts (l₁ ++ (a, v) :: l₂) id A)
    (hne : ∀ x ∈ l₁ ++ l₂, x.1 ≠ a) (hv : v.name = []) :
    Abstracts (l₁ ++ l₂) id (A.dropObj (id a)) := by
  refine ⟨h.obj_drop hne, fun n i => ?_, fun x hx y hy => ?_, fun x hx => ?_⟩
  · have hold := h.linked n i
    rw [exists_middle] at hold
    refine hold.trans (and_congr_right fun hn => ?_)
    have hnot : ¬(v.name = n ∧ id a = i) := fun hc => hn (hc.1.symm.trans hv)
    simp only [hnot, false_or]
  · exact h.inj x (mem_middle.mpr (Or.inr hx)) y (mem_middle.mpr (Or.inr hy))
  · exact h.fresh x (mem_middle.mpr (Or.inr hx))

/-- Dropping a record together with its name, when the semaphore is no longer needed under it. -/
theorem Abstracts.detach_dropObj (h : Abstracts (l₁ ++ (a, v) :: l₂) id A)
    (hne : ∀ x ∈ l₁ ++ l₂, x.1 ≠ a) (hv : v.name ≠ []) :
    Abstracts (l₁ ++ l₂) id ((A.detach v.name).dropObj (id a)) :=
  (h.detach hne hv).dropObj hne rfl

/-- A new record at the end of the list is a fresh object under its name. -/
theorem Abstracts.create (h : Abstracts l id A) (hne : ∀ x ∈ l, x.1 ≠ a)
    (hmiss : ∀ x ∈ l, x.2.name ≠ v.name) (hv : v.name ≠ []) (ho : objOf (a, v) = o) :
    Abstracts (l ++ [(a, v)]) (Function.update id a A.next) (A.create v.name o) := by
  subst ho
  -- the addresses of the old nodes keep their objects
  have hid : ∀ x ∈ l, Function.update id a A.next x.1 = id x.1 := by
    intro x hx
    rw [Function.update_of_ne (hne x hx)]
  have hmem : ∀ x, x ∈ l ++ [(a, v)] ↔ x ∈ l ∨ x = (a, v) := by simp
  have hex : ∀ P : Addr × RegNode → Prop,
      (∃ x ∈ l ++ [(a, v)], P x) ↔ (∃ x ∈ l, P x) ∨ P (a, v) := by
    intro P
    simp only [hmem, or_and_right, exists_or, exists_eq_left]
  refine ⟨fun i o => ?_, fun n i => ?_, fun x hx y hy hxy => ?_, fun x hx => ?_⟩
  · rw [hex]
    have hl : (∃ x ∈ l, Function.update id a A.next x.1 = i ∧ objOf x = o) ↔
        A.obj i = some o := by
      rw [h.obj]
      exact exists_congr fun x => and_congr_right fun hx => by rw [hid x hx]
    rw [hl]
    -- the new object, or an old one
    by_cases hi : i = A.next
    · subst hi
      have hnone : A.obj A.next ≠ some o := by
        intro hobj
        obtain ⟨x, hx, hlt, -⟩ := (h.obj _ _).mp hobj
        exact (h.fresh x hx).ne hlt
      simp [Namespace.create, hnone]
    · simp [Namespace.create, Function.update_of_ne hi, Ne.symm hi]
  · rw [hex]
    have hl : (∃ x ∈ l, x.2.name = n ∧ Function.update id a A.next x.1 = i) ↔
        ∃ x ∈ l, x.2.name = n ∧ id x.1 = i :=
      exists_congr fun x => and_congr_right fun hx => by rw [hid x hx]
    rw [hl]
    -- the new name, or an old one
    by_cases hn : n = v.name
    · subst hn
      have hnot : ¬∃ x ∈ l, x.2.name = v.name ∧ id x.1 = i := by
        rintro ⟨x, hx, hxn, -⟩
        exact hmiss x hx hxn
      simp [Namespace.create, hnot, hv]
    · have hold := h.linked n i
      simpa [Namespace.create, Function.update_of_ne hn, Ne.symm hn] using hold
  · rcases (hmem x).mp hx with hx | rfl <;> rcases (hmem y).mp hy with hy | rfl
    · rw [hid x hx, hid y hy] at hxy
      exact h.inj x hx y hy hxy
    · rw [hid x hx, Function.update_self] at hxy
      exact absurd hxy (h.fresh x hx).ne
    · rw [hid y hy, Function.update_self] at hxy
      exact absurd hxy.symm (h.fresh y hy).ne
    · rfl
  · show _ < A.next + 1
    rcases (hmem x).mp hx with hx | rfl
    · rw [hid x hx]
      exact Nat.lt_succ_of_lt (h.fresh x hx)
    · rw [Function.update_self]
      exact Nat.lt_succ_self _

/-! ### The simulation -/

/-- **Step lemma.**  Every outcome of a call on the list is a step of the namespace. -/
theorem Abstracts.step {k : Nat} {s : SemState} {l' : Registry} {c : SemCall} {r : SemRet}
    {fs : List Addr} (h : Abstracts l id A) (hg : Good k s l) (hs : RegStep m l c r fs l') :
    ∃ b id' A', b.erase = (c, r) ∧ NsStep m A b A' ∧ Abstracts l' id' A' := by
  cases hs with
  | openEmpty hname => exact ⟨_, id, A, rfl, .openEmpty hname, h⟩
  | @openExists l₁ l₂ a v name oflag value buf new hname hv hflag =>
    have hlink := h.linked_of_mem (x := (a, v)) (by simp) (hv ▸ hname)
    exact ⟨_, id, A, rfl, .openExcl (hv ▸ hlink) hflag, h⟩
  | @openFound l₁ l₂ a v name oflag value buf new hname hv hflag =>
    have hne : ∀ x ∈ l₁ ++ l₂, x.1 ≠ a := fun x hx => (hg.rep.ne_of_mem hx).1
    have hlink := h.linked_of_mem (x := (a, v)) (by simp) (hv ▸ hname)
    have hobj := h.obj_of_mem (x := (a, v)) (by simp)
    have hnonneg : 0 ≤ v.openCount := hg.inv.nonneg (a, v) (by simp)
    refine ⟨_, id, _, rfl, .openLinked (hv ▸ hlink) hobj hflag, h.setObj hne rfl ?_⟩
    simp only [objOf, SemObject.mk.injEq, true_and]
    omega
  | openNoEnt hname hmiss hflag =>
    exact ⟨_, id, A, rfl, .openNoEnt hname (h.linked_eq_none hmiss) hflag, h⟩
  -- in both cases one of the two allocations did not get a free block
  | openNoMemName hname hmiss hflag hbuf =>
    refine ⟨_, id, A, rfl, .openNoMem hname (h.linked_eq_none hmiss) hflag ?_, h⟩
    rintro ⟨hb, -, -⟩
    obtain ⟨hb₀, hb₁⟩ := h.unused_iff.mp hb
    exact hbuf.elim hb₀ hb₁
  | openNoMemRecord hname hmiss hflag hbuf hnew =>
    refine ⟨_, id, A, rfl, .openNoMem hname (h.linked_eq_none hmiss) hflag ?_, h⟩
    rintro ⟨-, hn, hne⟩
    obtain ⟨hn₀, hn₁⟩ := h.unused_iff.mp hn
    exact hnew.elim hn₀ (fun hnew => hnew.elim hne hn₁)
  | openBadValue hname hmiss hflag hbuf hnew hvalue =>
    exact ⟨_, id, A, rfl, .openBadValue hname (h.linked_eq_none hmiss) hflag
      ⟨h.unused_iff.mpr hbuf, h.unused_iff.mpr ⟨hnew.1, hnew.2.2⟩, hnew.2.1⟩ hvalue, h⟩
  | @openNew l name oflag value buf new hname hmiss hflag hbuf hnew hvalue =>
    have hne : ∀ x ∈ l, x.1 ≠ new := by
      rintro x hx rfl
      exact hnew.2.2 (Registry.mem_blocks.mpr ⟨x, hx, Or.inl rfl⟩)
    exact ⟨_, _, _, rfl, .openCreate hname (h.linked_eq_none hmiss) hflag
      ⟨h.unused_iff.mpr hbuf, h.unused_iff.mpr ⟨hnew.1, hnew.2.2⟩, hnew.2.1⟩ hvalue,
      h.create hne hmiss hname rfl⟩
  | closeUnknown hmiss => exact ⟨_, id, A, rfl, .closeUnknown (h.ne_addr hmiss), h⟩
  | @closeBusy l₁ l₂ a v hlast hname hwait =>
    have hobj := h.obj_of_mem (x := (a, v)) (by simp)
    exact ⟨_, id, A, rfl, .closeBusy hobj (by simp [objOf, hlast]) (h.detached_iff.mpr hname)
      hwait, h⟩
  | @closeLast l₁ l₂ a v hlast hname hwait =>
    have hne : ∀ x ∈ l₁ ++ l₂, x.1 ≠ a := fun x hx => (hg.rep.ne_of_mem hx).1
    have hobj := h.obj_of_mem (x := (a, v)) (by simp)
    exact ⟨_, id, _, rfl, .closeLast hobj (by simp [objOf, hlast]) (h.detached_iff.mpr hname)
      hwait, h.dropObj hne hname⟩
  -- both are a close that is not the last one of an unlinked object
  | @closeDec l₁ l₂ a v hnot hpos =>
    have hne : ∀ x ∈ l₁ ++ l₂, x.1 ≠ a := fun x hx => (hg.rep.ne_of_mem hx).1
    have hobj := h.obj_of_mem (x := (a, v)) (by simp)
    refine ⟨_, id, _, rfl, .closeOpen hobj ?_, h.setObj hne rfl ?_⟩
    · rintro ⟨hlast, hdet⟩
      refine hnot ⟨?_, h.detached_iff.mp hdet⟩
      have hone : v.openCount.toNat = 1 := hlast
      omega
    · simp only [objOf, SemObject.mk.injEq, true_and]
      omega
  | @closeZero l₁ l₂ a v hle =>
    have hne : ∀ x ∈ l₁ ++ l₂, x.1 ≠ a := fun x hx => (hg.rep.ne_of_mem hx).1
    have hobj := h.obj_of_mem (x := (a, v)) (by simp)
    have hzero : v.openCount.toNat = 0 := by omega
    refine ⟨_, id, _, rfl, .closeOpen hobj ?_, h.setObj hne rfl ?_⟩
    · rintro ⟨hlast, -⟩
      exact absurd (hzero.symm.trans hlast) (by decide)
    · simp only [objOf, hzero]
  | unlinkEmpty hname =>
    exact ⟨_, id, A, rfl, .unlinkMissing (hname ▸ h.linked_nil), h⟩
  | unlinkUnknown hname hmiss =>
    exact ⟨_, id, A, rfl, .unlinkMissing (h.linked_eq_none hmiss), h⟩
  | @unlinkBusy l₁ l₂ a v name hname hv hzero hwait =>
    have hlink := h.linked_of_mem (x := (a, v)) (by simp) (hv ▸ hname)
    have hobj := h.obj_of_mem (x := (a, v)) (by simp)
    exact ⟨_, id, A, rfl, .unlinkBusy (hv ▸ hlink) hobj (by simp [objOf, hzero]) hwait, h⟩
  | @unlinkFree l₁ l₂ a v name hname hv hzero hwait =>
    have hne : ∀ x ∈ l₁ ++ l₂, x.1 ≠ a := fun x hx => (hg.rep.ne_of_mem hx).1
    have hlink := h.linked_of_mem (x := (a, v)) (by simp) (hv ▸ hname)
    have hobj := h.obj_of_mem (x := (a, v)) (by simp)
    exact ⟨_, id, _, rfl, .unlinkIdle (hv ▸ hlink) hobj (by simp [objOf, hzero]) hwait,
      hv ▸ h.detach_dropObj hne (hv ▸ hname)⟩
  | @unlinkMark l₁ l₂ a v name hname hv hopen =>
    have hne : ∀ x ∈ l₁ ++ l₂, x.1 ≠ a := fun x hx => (hg.rep.ne_of_mem hx).1
    have hlink := h.linked_of_mem (x := (a, v)) (by simp) (hv ▸ hname)
    have hobj := h.obj_of_mem (x := (a, v)) (by simp)
    have hnonneg : 0 ≤ v.openCount := hg.inv.nonneg (a, v) (by simp)
    refine ⟨_, id, _, rfl, .unlinkOpen (hv ▸ hlink) hobj ?_,
      hv ▸ h.detach hne (hv ▸ hname)⟩
    show v.openCount.toNat ≠ 0
    omega
  | kernelMiss hmiss => exact ⟨_, id, A, rfl, .kernelMiss (h.ne_addr hmiss), h⟩
  | @kernelHit l₁ l₂ a v state =>
    have hne : ∀ x ∈ l₁ ++ l₂, x.1 ≠ a := fun x hx => (hg.rep.ne_of_mem hx).1
    have hobj := h.obj_of_mem (x := (a, v)) (by simp)
    exact ⟨_, id, _, rfl, .kernelHit hobj, h.setObj hne rfl rfl⟩

/-- The memory stands for the namespace, through a list and the identities of its records. -/
def MemoryAbstracts (s : SemState) (A : Namespace) : Prop :=
  ∃ k l id, Good k s l ∧ Abstracts l id A

/-- **Refinement.**  The pointer code simulates the namespace: every step of the one is a step of
    the other, with the same answer. -/
def refinement (m : Nat) : Simulation (semSystem m) (nsSystem m) NsLabel.erase where
  rel := MemoryAbstracts
  init := by
    rintro s rfl
    refine ⟨.empty, rfl, 0, [], fun _ => 0, good_empty, ?_⟩
    exact ⟨by simp [Namespace.empty], by simp [Namespace.empty], by simp, by simp⟩
  step := by
    rintro s ⟨c, r⟩ s' A - ⟨k, l, id, hg, hA⟩ hs
    obtain ⟨fs, l', hstep, -, hg'⟩ := hg.step hs
    obtain ⟨b, id', A', hb, hns, hA'⟩ := hA.step hg hstep
    exact ⟨b, A', hb, hns, _, l', id', hg', hA'⟩

/-! ### What the namespace guarantees -/

/-- A namespace is well formed: names are not empty and have one object each, an object has
    one name at most, and objects have different addresses. -/
structure Namespace.WF (A : Namespace) : Prop where
  name_ne : ∀ n i, A.linked n = some i → n ≠ []
  obj_of : ∀ n i, A.linked n = some i → ∃ o, A.obj i = some o
  one_name : ∀ n n' i, A.linked n = some i → A.linked n' = some i → n = n'
  one_addr : ∀ i j o o', A.obj i = some o → A.obj j = some o' → o.addr = o'.addr → i = j
  fresh : ∀ i o, A.obj i = some o → i < A.next

/-- The empty namespace is well formed, since there is nothing in it. -/
theorem Namespace.wf_empty : Namespace.empty.WF := by
  constructor <;> simp [Namespace.empty]

namespace Namespace.WF

/-- Rewriting an object at its address. -/
theorem setObj (h : A.WF) {o' : SemObject} (hobj : A.obj i = some o)
    (hnode : o'.node = o.node) : (A.setObj i o').WF := by
  -- every object of the new namespace is one of the old, with the same address
  have hold : ∀ j p, (A.setObj i o').obj j = some p → ∃ q, A.obj j = some q ∧ p.addr = q.addr := by
    intro j p hp
    by_cases hj : j = i
    · subst hj
      obtain rfl : o' = p := by simpa [Namespace.setObj] using hp
      exact ⟨o, hobj, by simp [SemObject.addr, hnode]⟩
    · exact ⟨p, by simpa [Namespace.setObj, Function.update_of_ne hj] using hp, rfl⟩
  refine ⟨h.name_ne, fun n j hlink => ?_, h.one_name, fun j j' p p' hp hp' haddr => ?_,
    fun j p hp => ?_⟩
  · by_cases hj : j = i
    · exact ⟨o', by simp [Namespace.setObj, hj]⟩
    · obtain ⟨p, hp⟩ := h.obj_of n j hlink
      exact ⟨p, by simpa [Namespace.setObj, Function.update_of_ne hj] using hp⟩
  · obtain ⟨q, hq, hpq⟩ := hold j p hp
    obtain ⟨q', hq', hpq'⟩ := hold j' p' hp'
    exact h.one_addr j j' q q' hq hq' (by rw [← hpq, ← hpq', haddr])
  · obtain ⟨q, hq, -⟩ := hold j p hp
    exact h.fresh j q hq

/-- Dropping an object that no name is linked to. -/
theorem dropObj (h : A.WF) (hdet : A.Detached i) : (A.dropObj i).WF := by
  have hold : ∀ j p, (A.dropObj i).obj j = some p → A.obj j = some p := by
    intro j p hp
    by_cases hj : j = i
    · simp [Namespace.dropObj, hj] at hp
    · simpa [Namespace.dropObj, Function.update_of_ne hj] using hp
  refine ⟨h.name_ne, fun n j hlink => ?_, h.one_name,
    fun j j' p p' hp hp' => h.one_addr j j' p p' (hold j p hp) (hold j' p' hp'),
    fun j p hp => h.fresh j p (hold j p hp)⟩
  have hj : j ≠ i := by
    rintro rfl
    exact hdet n hlink
  obtain ⟨p, hp⟩ := h.obj_of n j hlink
  exact ⟨p, by simpa [Namespace.dropObj, Function.update_of_ne hj] using hp⟩

/-- What is still linked after a name was detached: the other names, to what they were. -/
theorem linked_of_detach {n n' : List UInt8} (hlink : (A.detach n).linked n' = some i) :
    n' ≠ n ∧ A.linked n' = some i := by
  by_cases hn : n' = n
  · simp [Namespace.detach, hn] at hlink
  · exact ⟨hn, by simpa [Namespace.detach, Function.update_of_ne hn] using hlink⟩

/-- Detaching a name. -/
theorem detach (h : A.WF) (n : List UInt8) : (A.detach n).WF where
  name_ne n' i hlink := h.name_ne n' i (linked_of_detach hlink).2
  obj_of n' i hlink := h.obj_of n' i (linked_of_detach hlink).2
  one_name n₁ n₂ i h₁ h₂ := h.one_name n₁ n₂ i (linked_of_detach h₁).2 (linked_of_detach h₂).2
  one_addr := h.one_addr
  fresh := h.fresh

/-- The object detached from its name has no other, since it had only one. -/
theorem detached_detach (h : A.WF) {n : List UInt8} (hlink : A.linked n = some i) :
    (A.detach n).Detached i := by
  intro n' hlink'
  obtain ⟨hne, hold⟩ := linked_of_detach hlink'
  exact hne (h.one_name n' n i hold hlink)

/-- What is linked after an object was created: it, and what was before. -/
theorem linked_of_create {n n' : List UInt8} (hlink : (A.create n o).linked n' = some i) :
    (n' = n ∧ i = A.next) ∨ A.linked n' = some i := by
  by_cases hn : n' = n
  · exact Or.inl ⟨hn, by simpa [Namespace.create, hn, eq_comm] using hlink⟩
  · exact Or.inr (by simpa [Namespace.create, Function.update_of_ne hn] using hlink)

/-- Linked objects were created, and so are older than the next one. -/
theorem linked_lt (h : A.WF) {n : List UInt8} (hlink : A.linked n = some i) : i < A.next := by
  obtain ⟨o, ho⟩ := h.obj_of n i hlink
  exact h.fresh i o ho

/-- Creating an object at an unused block. -/
theorem create (h : A.WF) {n : List UInt8} (hn : n ≠ []) (hun : A.Unused o.node) :
    (A.create n o).WF := by
  -- what is there afterwards is the new object, or was there
  have hold : ∀ j p, (A.create n o).obj j = some p →
      (j = A.next ∧ p = o) ∨ (j < A.next ∧ A.obj j = some p) := by
    intro j p hp
    by_cases hj : j = A.next
    · exact Or.inl ⟨hj, by simpa [Namespace.create, hj, eq_comm] using hp⟩
    · have hp' : A.obj j = some p := by
        simpa [Namespace.create, Function.update_of_ne hj] using hp
      exact Or.inr ⟨h.fresh j p hp', hp'⟩
  have haddr : ∀ j p, A.obj j = some p → p.addr ≠ o.addr := by
    intro j p hp heq
    exact (hun.2 j p hp).1 (Nat.add_right_cancel heq).symm
  refine ⟨fun n' j hlink => ?_, fun n' j hlink => ?_, fun n₁ n₂ j h₁ h₂ => ?_,
    fun j j' p p' hp hp' heq => ?_, fun j p hp => ?_⟩
  · rcases linked_of_create hlink with ⟨rfl, -⟩ | hlink
    · exact hn
    · exact h.name_ne n' j hlink
  · rcases linked_of_create hlink with ⟨-, rfl⟩ | hlink
    · exact ⟨o, by simp [Namespace.create]⟩
    · obtain ⟨p, hp⟩ := h.obj_of n' j hlink
      exact ⟨p, by simpa [Namespace.create, Function.update_of_ne (h.linked_lt hlink).ne] using hp⟩
  · rcases linked_of_create h₁ with ⟨rfl, rfl⟩ | hold₁ <;>
      rcases linked_of_create h₂ with ⟨rfl, hj⟩ | hold₂
    · rfl
    · exact absurd rfl (h.linked_lt hold₂).ne
    · exact absurd hj (h.linked_lt hold₁).ne
    · exact h.one_name n₁ n₂ j hold₁ hold₂
  · rcases hold j p hp with ⟨rfl, rfl⟩ | ⟨-, hold₁⟩ <;>
      rcases hold j' p' hp' with ⟨rfl, rfl⟩ | ⟨-, hold₂⟩
    · rfl
    · exact absurd heq.symm (haddr j' p' hold₂)
    · exact absurd heq (haddr j p hold₁)
    · exact h.one_addr j j' p p' hold₁ hold₂ heq
  · rcases hold j p hp with ⟨rfl, -⟩ | ⟨hlt, -⟩
    · exact Nat.lt_succ_self _
    · exact Nat.lt_succ_of_lt hlt

/-- **Step lemma.**  The steps keep a namespace well formed. -/
theorem step {b : NsLabel} (h : A.WF) (hs : NsStep m A b A') : A'.WF := by
  cases hs with
  | openLinked hlink hobj hflag => exact h.setObj hobj rfl
  | openCreate hname hlink hflag hmem hvalue => exact h.create hname hmem.2.1
  | closeLast hobj hlast hdet hwait => exact h.dropObj hdet
  | closeOpen hobj hnot => exact h.setObj hobj rfl
  | unlinkIdle hlink hobj hzero hwait => exact (h.detach _).dropObj (h.detached_detach hlink)
  | unlinkOpen hlink hobj hopen => exact h.detach _
  | kernelHit hobj => exact h.setObj hobj rfl
  | _ => exact h

end Namespace.WF

/-- Is this step a successful `sem_unlink`, of an object open or not? -/
def isUnlink : SemCall × SemRet → Bool
  | (.semUnlink _, .int r) => r.errno == none
  | _ => false

/-- No later `sem_open` returns an object that was unlinked earlier, by identity and not by
    address. -/
def NoReopen (bs : List NsLabel) : Prop :=
  bs.Pairwise fun b b' => isUnlink b.erase → isOpen b'.erase → b.object ≠ b'.object

/-- How object `i` can disappear in the step `b` from `A` to `A'`: by the last close of an
    unlinked object, or by the unlinking of one that is not open; nobody waits on it. -/
structure Disappears (A : Namespace) (b : NsLabel) (A' : Namespace) (i : ObjId)
    (o : SemObject) : Prop where
  detached : A'.Detached i
  idle : o.sem.waiting = 0
  cause : (b.call = .semClose o.addr ∧ o.opens = 1 ∧ A.Detached i) ∨
    ∃ name, b.call = .semUnlink name ∧ A.linked (cstr name) = some i ∧ o.opens = 0

/-- An object opened by a step is linked after it, so that an unlinked one is not opened. -/
theorem NsStep.linked_of_open {b : NsLabel} (hs : NsStep m A b A')
    (hopen : isOpen b.erase = true) : ∃ n i, b.object = some i ∧ A'.linked n = some i := by
  cases hs with
  | openLinked hlink hobj hflag => exact ⟨_, _, rfl, hlink⟩
  | openCreate hname hlink hflag hmem hvalue => exact ⟨_, _, rfl, Function.update_self ..⟩
  | _ => simp [NsLabel.erase, isOpen] at hopen

/-- An object unlinked by a step was linked before it and is detached after it. -/
theorem NsStep.detached_of_unlink {b : NsLabel} (h : A.WF) (hs : NsStep m A b A')
    (hunlink : isUnlink b.erase = true) :
    ∃ i, b.object = some i ∧ i < A'.next ∧ A'.Detached i := by
  cases hs with
  | unlinkIdle hlink hobj hzero hwait =>
    exact ⟨_, rfl, h.linked_lt hlink, h.detached_detach hlink⟩
  | unlinkOpen hlink hobj hopen => exact ⟨_, rfl, h.linked_lt hlink, h.detached_detach hlink⟩
  | _ => simp [NsLabel.erase, isUnlink] at hunlink

/-- A detached object stays detached: names are linked to fresh objects only. -/
theorem NsStep.detached {b : NsLabel} (hs : NsStep m A b A') (hlt : i < A.next)
    (hdet : A.Detached i) : i < A'.next ∧ A'.Detached i := by
  cases hs with
  | openCreate hname hlink hflag hmem hvalue =>
    refine ⟨Nat.lt_succ_of_lt hlt, fun n hn => ?_⟩
    rcases Namespace.WF.linked_of_create hn with ⟨-, rfl⟩ | hn
    · exact absurd rfl hlt.ne
    · exact hdet n hn
  | unlinkIdle hlink hobj hzero hwait =>
    exact ⟨hlt, fun n hn => hdet n (Namespace.WF.linked_of_detach hn).2⟩
  | unlinkOpen hlink hobj hopen =>
    exact ⟨hlt, fun n hn => hdet n (Namespace.WF.linked_of_detach hn).2⟩
  | _ => exact ⟨hlt, hdet⟩

/-- An object disappears only when it is unlinked and not open, by its last close or its unlink. -/
theorem NsStep.disappears {b : NsLabel} (h : A.WF) (hs : NsStep m A b A')
    (hobj : A.obj i = some o) (hgone : A'.obj i = none) : Disappears A b A' i o := by
  -- a changed object is still there
  have hset : ∀ j p, (A.setObj j p).obj i ≠ none := by
    intro j p
    by_cases hj : i = j
    · simp [Namespace.setObj, hj]
    · simp [Namespace.setObj, Function.update_of_ne hj, hobj]
  -- only the object that is dropped disappears
  have hdrop : ∀ j, (A.dropObj j).obj i = none → i = j := by
    intro j hj
    by_contra hne
    simp [Namespace.dropObj, Function.update_of_ne hne, hobj] at hj
  cases hs with
  | openLinked => exact absurd hgone (hset _ _)
  | openCreate =>
    by_cases hi : i = A.next
    · simp [Namespace.create, hi] at hgone
    · simp [Namespace.create, Function.update_of_ne hi, hobj] at hgone
  | closeLast hobj' hlast hdet hwait =>
    obtain rfl := hdrop _ hgone
    obtain rfl := Option.some.inj (hobj.symm.trans hobj')
    exact ⟨hdet, hwait, Or.inl ⟨rfl, hlast, hdet⟩⟩
  | closeOpen => exact absurd hgone (hset _ _)
  | unlinkIdle hlink hobj' hzero hwait =>
    obtain rfl := hdrop _ hgone
    obtain rfl := Option.some.inj (hobj.symm.trans hobj')
    exact ⟨h.detached_detach hlink, hwait, Or.inr ⟨_, rfl, hlink, hzero⟩⟩
  | kernelHit => exact absurd hgone (hset _ _)
  | _ => exact absurd (hobj.symm.trans hgone) (by simp)

/-- What holds after every run of the namespace, and so of the module by the simulation. -/
theorem nsRun_inv {bs : List NsLabel} (h : (nsSystem m).Run bs A) :
    A.WF ∧ NoReopen bs ∧ ∀ b ∈ bs, isUnlink b.erase = true →
      ∃ i, b.object = some i ∧ i < A.next ∧ A.Detached i := by
  refine h.invariant_trace (I := fun bs A => A.WF ∧ NoReopen bs ∧ ∀ b ∈ bs,
    isUnlink b.erase = true → ∃ i, b.object = some i ∧ i < A.next ∧ A.Detached i) ?_ ?_
  · rintro A rfl
    exact ⟨Namespace.wf_empty, .nil, by simp⟩
  · rintro bs A b A' - ⟨hwf, hno, hpast⟩ hs
    have hpast' : ∀ b' ∈ bs, isUnlink b'.erase = true →
        ∃ i, b'.object = some i ∧ i < A'.next ∧ A'.Detached i := by
      intro b' hb' hunlink
      obtain ⟨i, hi, hlt, hdet⟩ := hpast b' hb' hunlink
      exact ⟨i, hi, hs.detached hlt hdet⟩
    refine ⟨hwf.step hs, ?_, ?_⟩
    · refine List.pairwise_append.mpr ⟨hno, List.pairwise_singleton _ _, ?_⟩
      intro b₁ hb₁ b₂ hb₂ hunlink hopen heq
      obtain rfl := List.mem_singleton.mp hb₂
      obtain ⟨i, hi, -, hdet⟩ := hpast' b₁ hb₁ hunlink
      obtain ⟨n, j, hj, hlink⟩ := hs.linked_of_open hopen
      obtain rfl := Option.some.inj (hi.symm.trans (heq.trans hj))
      exact hdet n hlink
    · intro b' hb' hunlink
      rcases List.mem_append.mp hb' with hb' | hb'
      · exact hpast' b' hb' hunlink
      · obtain rfl := List.mem_singleton.mp hb'
        exact hs.detached_of_unlink hwf hunlink

/-- **Named semaphores refine the POSIX namespace.**  Every run of the module is matched,
    call by call and result by result, by a run of the namespace that ends in the state the
    memory stands for; no `sem_open` returns an object unlinked earlier; an object disappears
    only when it is unlinked and not open; and every call returns while fewer than 2^31
    semaphores were opened. -/
theorem namespace_refinement {as : List (SemCall × SemRet)} {s : SemState}
    (h : (semSystem m).Run as s) :
    (∃ bs A, bs.map NsLabel.erase = as ∧ (nsSystem m).Run bs A ∧ MemoryAbstracts s A ∧ A.WF ∧
      NoReopen bs ∧
      ∀ b A' i o, NsStep m A b A' → A.obj i = some o → A'.obj i = none →
        Disappears A b A' i o) ∧
    (opens as + 1 < 2 ^ 31 → ∀ c, ∃ r s', semCall m s c = some (r, s')) := by
  obtain ⟨bs, A, hbs, hrun, hrel⟩ := (refinement m).run h
  obtain ⟨hwf, hno, -⟩ := nsRun_inv hrun
  obtain ⟨l, hl⟩ := run_inv h
  exact ⟨⟨bs, A, hbs, hrun, hrel, hwf, hno, fun b A' i o hs => hs.disappears hwf⟩,
    fun hk c => hl.progress hk c⟩

/-- A name that is unlinked while open and opened again: the run of the module is one of the
    namespace, with two objects. -/
theorem namespace_refinement_reopen :
    ∃ rs s, LTS.exec (semCall 5) reopenCalls .empty = some (rs, s) ∧
      ∃ bs A, bs.map NsLabel.erase = reopenCalls.zip rs ∧ (nsSystem 5).Run bs A ∧
        MemoryAbstracts s A ∧ NoReopen bs := by
  obtain ⟨⟨rs, s⟩, hcalls⟩ : ∃ x, LTS.exec (semCall 5) reopenCalls .empty = some x :=
    Option.isSome_iff_exists.mp (by decide +kernel)
  obtain ⟨⟨bs, A, hbs, hrun, hrel, -, hno, -⟩, -⟩ :=
    namespace_refinement (LTS.Run.exec (.init rfl) hcalls)
  exact ⟨rs, s, hcalls, bs, A, hbs, hrun, hrel, hno⟩

end Ecos.Posix
