import Ecos.Posix.RegistryInvariant

namespace Ecos.Posix

open Ecos.Lib

/-!
# Lifetime of named semaphores

An account of every semaphore object that was ever created, kept beside the module: how
often it was opened and closed, whether its name is still linked, and how often its two
blocks were freed.  The account looks only at the calls, their results and the blocks they
free.

* `ObjRecord`, `Ledger`, `Ledger.record` — the account;
* `lifeSystem` — the runs in which no object is closed more often than opened;
* `Tallies` — the account agrees with the list, with its step lemma `Tallies.step`;
* `lifetime` — an object in use is on the list and not freed; one that is not was freed
  exactly once.
-/

/-- The account of one semaphore object, from its creation on and also after it was freed. -/
structure ObjRecord where
  /-- The `sem_name` record. -/
  node : Addr
  /-- The name buffer. -/
  buf : Addr
  name : List UInt8
  opens : Nat
  closes : Nat
  linked : Bool
  nodeFrees : Nat
  bufFrees : Nat
  deriving DecidableEq, Repr

/-- The address users have of the object, which may be given to a later one again. -/
def ObjRecord.handle (r : ObjRecord) : Addr := semAddr r.node

/-- Is the object open, or linked to its name? As long as it is, it must not be freed. -/
def ObjRecord.InUse (r : ObjRecord) : Prop := r.linked = true ∨ r.closes < r.opens

instance (r : ObjRecord) : Decidable r.InUse := inferInstanceAs (Decidable (_ ∨ _))

/-- All objects so far, the last one created first, so that a reused address finds its newest
    object. -/
abbrev Ledger := List ObjRecord

/-- Apply `f` to the first element with `p`, and leave the others as they are. -/
def onFirst {α : Type} (p : α → Bool) (f : α → α) : List α → List α
  | [] => []
  | x :: xs => if p x then f x :: xs else x :: onFirst p f xs

/-- The first element with `p`, behind some without. -/
theorem onFirst_append {α : Type} {p : α → Bool} {f : α → α} {x : α} {xs ys : List α}
    (hmiss : ∀ y ∈ xs, p y = false) (hx : p x = true) :
    onFirst p f (xs ++ x :: ys) = xs ++ f x :: ys := by
  induction xs with
  | nil => simp [onFirst, hx]
  | cons y ys ih =>
    have hy : p y = false := hmiss y (by simp)
    simp [onFirst, hy, ih fun z hz => hmiss z (List.mem_cons_of_mem _ hz)]

namespace Ledger

/-- Is this the object linked under `name`? There is at most one. -/
def isLinked (name : List UInt8) (r : ObjRecord) : Bool := r.linked && r.name == cstr name

/-- A successful `sem_open`: one more open of the object linked under the name, or a new
    object. -/
def opened (L : Ledger) (name : List UInt8) (buf sem : Addr) : Ledger :=
  if L.any (isLinked name) then onFirst (isLinked name) (fun r => { r with opens := r.opens + 1 }) L
  else ⟨sem - semOffset, buf, cstr name, 1, 0, true, 0, 0⟩ :: L

/-- A successful `sem_close`, charged to the last object that had the address. -/
def closed (L : Ledger) (sem : Addr) : Ledger :=
  onFirst (fun r => r.handle == sem) (fun r => { r with closes := r.closes + 1 }) L

/-- A successful `sem_unlink`, charged to the object linked under the name. -/
def unlinked (L : Ledger) (name : List UInt8) : Ledger :=
  onFirst (isLinked name) (fun r => { r with linked := false }) L

/-- `free(p)`, charged to the last object that was given the block `p`. -/
def freed (L : Ledger) (p : Addr) : Ledger :=
  onFirst (fun r => r.node == p || r.buf == p)
    (fun r => if r.node = p then { r with nodeFrees := r.nodeFrees + 1 }
      else { r with bufFrees := r.bufFrees + 1 }) L

/-- The account after a call that freed the blocks `fs`.  What a failing `sem_open` frees of
    the two blocks `malloc` gave it belongs to no object. -/
def record (L : Ledger) (a : SemCall × SemRet) (fs : List Addr) : Ledger :=
  match a with
  | (.semOpen name _ _ buf _, .ptr ⟨sem, none⟩) => fs.foldl freed (L.opened name buf sem)
  | (.semOpen _ _ _ buf new, _) => (fs.filter fun p => p ≠ buf ∧ p ≠ new).foldl freed L
  | (.semClose sem, .int ⟨_, none⟩) => fs.foldl freed (L.closed sem)
  | (.semUnlink name, .int ⟨_, none⟩) => fs.foldl freed (L.unlinked name)
  | _ => fs.foldl freed L

/-- No object was closed more often than opened: what a user of the module has to keep. -/
def Balanced (L : Ledger) : Prop := ∀ r ∈ L, r.closes ≤ r.opens

instance (L : Ledger) : Decidable L.Balanced := inferInstanceAs (Decidable (∀ r ∈ L, _))

end Ledger

/-- A call, with the account brought up to date; it must stay balanced, or it is not one of these
    runs. -/
def lifeCall (semValueMax : Nat) (σ : SemState × Ledger) (c : SemCall) :
    Option (SemRet × SemState × Ledger) := do
  let (r, s) ← semCall semValueMax σ.1 c
  let L := Ledger.record σ.2 (c, r) (s.heap.frees.drop σ.1.heap.frees.length)
  if L.Balanced then return (r, s, L) else none

/-- The runs of the module in which closes never outnumber opens, with their accounts. -/
def lifeSystem (semValueMax : Nat) : LTS (SemState × Ledger) (SemCall × SemRet) :=
  .ofFun (.empty, []) (lifeCall semValueMax)

/-! ### The account agrees with the list -/

/-- The account `r` is that of the list node `x`: the same blocks, and the opens that are left. -/
structure Matches (x : Addr × RegNode) (r : ObjRecord) : Prop where
  node : r.node = x.1
  buf : r.buf = x.2.buf
  count : x.2.openCount = (r.opens : Int) - r.closes
  name : x.2.name = if r.linked then r.name else []
  name_ne : r.name ≠ []
  inUse : r.InUse
  nodeFrees : r.nodeFrees = 0
  bufFrees : r.bufFrees = 0

/-- Two objects share no block, so that a free is charged to one of them. -/
def Apart (r r' : ObjRecord) : Prop :=
  r.node ≠ r'.node ∧ r.node ≠ r'.buf ∧ r.buf ≠ r'.node ∧ r.buf ≠ r'.buf

/-- The account agrees with the list: every node has its account, and every object in use is on the
    list. -/
structure Tallies (l : Registry) (L : Ledger) : Prop where
  /-- Every node of the list has an account. -/
  account : ∀ x ∈ l, ∃ r ∈ L, Matches x r
  /-- Every account is that of a node, or of an object whose blocks were freed once. -/
  state : ∀ r ∈ L, (∃ x ∈ l, Matches x r) ∨ (¬r.InUse ∧ r.nodeFrees = 1 ∧ r.bufFrees = 1)
  /-- An object in use shares no block with a later one. -/
  apart : L.Pairwise fun r r' => r'.InUse → Apart r r'

variable {m k : Nat} {l l₁ l₂ : Registry} {L L₁ L₂ : Ledger} {a : Addr} {v w : RegNode}
  {r r' : ObjRecord}

/-- Initially there is nothing to account for. -/
theorem tallies_nil : Tallies [] [] := ⟨by simp, by simp, .nil⟩

/-- The account of a node, and where it stands: those before it are of other blocks. -/
theorem Tallies.split (h : Tallies (l₁ ++ (a, v) :: l₂) L) :
    ∃ L₁ r L₂, L = L₁ ++ r :: L₂ ∧ Matches (a, v) r ∧ ∀ r' ∈ L₁, Apart r' r := by
  obtain ⟨r, hr, hm⟩ := h.account (a, v) (by simp)
  obtain ⟨L₁, L₂, rfl⟩ := List.append_of_mem hr
  refine ⟨L₁, r, L₂, rfl, hm, fun r' hr' => ?_⟩
  exact (List.pairwise_append.mp h.apart).2.2 r' hr' r (by simp) hm.inUse

/-- The accounts of the other nodes are the other accounts. -/
theorem Tallies.others (h : Tallies (l₁ ++ (a, v) :: l₂) (L₁ ++ r :: L₂))
    (hm : Matches (a, v) r) (hne : ∀ x ∈ l₁ ++ l₂, x.1 ≠ a) :
    (∀ x ∈ l₁ ++ l₂, ∃ r' ∈ L₁ ++ L₂, Matches x r') ∧
      ∀ r' ∈ L₁ ++ L₂, (∃ x ∈ l₁ ++ l₂, Matches x r') ∨
        (¬r'.InUse ∧ r'.nodeFrees = 1 ∧ r'.bufFrees = 1) := by
  have hmid : ∀ {α : Type} {x y : α} {xs ys : List α},
      x ∈ xs ++ y :: ys ↔ x = y ∨ x ∈ xs ++ ys := by
    intro α x y xs ys
    simp only [List.mem_append, List.mem_cons]
    tauto
  refine ⟨fun x hx => ?_, fun r' hr' => ?_⟩
  · obtain ⟨r', hr', hm'⟩ := h.account x (hmid.mpr (Or.inr hx))
    rcases hmid.mp hr' with rfl | hr'
    · exact absurd (hm'.node.symm.trans hm.node) (hne x hx)
    · exact ⟨r', hr', hm'⟩
  · rcases h.state r' (hmid.mpr (Or.inr hr')) with ⟨x, hx, hm'⟩ | hdead
    · rcases hmid.mp hx with rfl | hx
      · -- two accounts in use at one address
        have hnode : r'.node = r.node := hm'.node.trans hm.node.symm
        obtain ⟨-, htail, hcross⟩ := List.pairwise_append.mp h.apart
        rcases List.mem_append.mp hr' with hr' | hr'
        · exact absurd hnode (hcross r' hr' r (by simp) hm.inUse).1
        · exact absurd hnode.symm ((List.pairwise_cons.mp htail).1 r' hr' hm'.inUse).1
      · exact Or.inl ⟨x, hx, hm'⟩
    · exact Or.inr hdead

/-- Rewriting an account that keeps its blocks, and does not come into use by it, keeps the
    accounts apart. -/
theorem Tallies.apart_set (h : Tallies l (L₁ ++ r :: L₂)) (hnode : r'.node = r.node)
    (hbuf : r'.buf = r.buf) (huse : r'.InUse → r.InUse) :
    (L₁ ++ r' :: L₂).Pairwise fun r r' => r'.InUse → Apart r r' := by
  obtain ⟨hhead, htail, hcross⟩ := List.pairwise_append.mp h.apart
  obtain ⟨hr, hrest⟩ := List.pairwise_cons.mp htail
  refine List.pairwise_append.mpr ⟨hhead, List.pairwise_cons.mpr ⟨fun y hy hin => ?_, hrest⟩,
    fun x hx y hy hin => ?_⟩
  · have hap := hr y hy hin
    simpa only [Apart, hnode, hbuf] using hap
  · rcases List.mem_cons.mp hy with rfl | hy
    · have hap := hcross x hx r (by simp) (huse hin)
      simpa only [Apart, hnode, hbuf] using hap
    · exact hcross x hx y (List.mem_cons_of_mem _ hy) hin

/-- A node and its account change together, and the others stay. -/
theorem Tallies.set (h : Tallies (l₁ ++ (a, v) :: l₂) (L₁ ++ r :: L₂)) (hm : Matches (a, v) r)
    (hne : ∀ x ∈ l₁ ++ l₂, x.1 ≠ a) (hm' : Matches (a, w) r') (hbuf : w.buf = v.buf) :
    Tallies (l₁ ++ (a, w) :: l₂) (L₁ ++ r' :: L₂) := by
  obtain ⟨hacc, hstate⟩ := h.others hm hne
  refine ⟨fun x hx => ?_, fun r₀ hr₀ => ?_, h.apart_set (hm'.node.trans hm.node.symm)
    (hm'.buf.trans (hbuf.trans hm.buf.symm)) fun _ => hm.inUse⟩
  · simp only [List.mem_append, List.mem_cons] at hx
    rcases hx with hx | rfl | hx
    · obtain ⟨r₀, hr₀, hm₀⟩ := hacc x (List.mem_append_left _ hx)
      exact ⟨r₀, by simp only [List.mem_append, List.mem_cons] at hr₀ ⊢; tauto, hm₀⟩
    · exact ⟨r', by simp, hm'⟩
    · obtain ⟨r₀, hr₀, hm₀⟩ := hacc x (List.mem_append_right _ hx)
      exact ⟨r₀, by simp only [List.mem_append, List.mem_cons] at hr₀ ⊢; tauto, hm₀⟩
  · have hcases : r₀ = r' ∨ r₀ ∈ L₁ ++ L₂ := by
      simp only [List.mem_append, List.mem_cons] at hr₀ ⊢
      tauto
    rcases hcases with rfl | hr₀
    · exact Or.inl ⟨(a, w), by simp, hm'⟩
    · refine (hstate r₀ hr₀).imp_left ?_
      rintro ⟨x, hx, hm₀⟩
      exact ⟨x, by simp only [List.mem_append, List.mem_cons] at hx ⊢; tauto, hm₀⟩

/-- A node goes, and its account is closed: it is not in use, and was freed once. -/
theorem Tallies.drop (h : Tallies (l₁ ++ (a, v) :: l₂) (L₁ ++ r :: L₂))
    (hm : Matches (a, v) r) (hne : ∀ x ∈ l₁ ++ l₂, x.1 ≠ a) (hnode : r'.node = r.node)
    (hbuf : r'.buf = r.buf) (huse : ¬r'.InUse) (hnf : r'.nodeFrees = 1)
    (hbf : r'.bufFrees = 1) : Tallies (l₁ ++ l₂) (L₁ ++ r' :: L₂) := by
  obtain ⟨hacc, hstate⟩ := h.others hm hne
  refine ⟨fun x hx => ?_, fun r₀ hr₀ => ?_, h.apart_set hnode hbuf fun hin => absurd hin huse⟩
  · obtain ⟨r₀, hr₀, hm₀⟩ := hacc x hx
    exact ⟨r₀, by simp only [List.mem_append, List.mem_cons] at hr₀ ⊢; tauto, hm₀⟩
  · have hcases : r₀ = r' ∨ r₀ ∈ L₁ ++ L₂ := by
      simp only [List.mem_append, List.mem_cons] at hr₀ ⊢
      tauto
    rcases hcases with rfl | hr₀
    · exact Or.inr ⟨huse, hnf, hbf⟩
    · exact hstate r₀ hr₀

/-- A new node, and a new account for it, in front of those that had its blocks before. -/
theorem Tallies.new (h : Tallies l L) (hm : Matches (a, v) r) (ha : a ∉ l.blocks)
    (hbuf : v.buf ∉ l.blocks) : Tallies (l ++ [(a, v)]) (r :: L) := by
  refine ⟨fun x hx => ?_, fun r₀ hr₀ => ?_, List.pairwise_cons.mpr ⟨fun r₀ hr₀ hin => ?_,
    h.apart⟩⟩
  · rcases List.mem_append.mp hx with hx | hx
    · obtain ⟨r₀, hr₀, hm₀⟩ := h.account x hx
      exact ⟨r₀, List.mem_cons_of_mem _ hr₀, hm₀⟩
    · obtain rfl := List.mem_singleton.mp hx
      exact ⟨r, List.mem_cons_self, hm⟩
  · rcases List.mem_cons.mp hr₀ with rfl | hr₀
    · exact Or.inl ⟨(a, v), by simp, hm⟩
    · refine (h.state r₀ hr₀).imp_left ?_
      rintro ⟨x, hx, hm₀⟩
      exact ⟨x, List.mem_append_left _ hx, hm₀⟩
  · rcases h.state r₀ hr₀ with ⟨x, hx, hm₀⟩ | ⟨hdead, -, -⟩
    · have hnode : r₀.node ∈ l.blocks :=
        Registry.mem_blocks.mpr ⟨x, hx, Or.inl hm₀.node⟩
      have hnbuf : r₀.buf ∈ l.blocks :=
        Registry.mem_blocks.mpr ⟨x, hx, Or.inr hm₀.buf⟩
      rw [Apart, hm.node, hm.buf]
      exact ⟨(ne_of_mem_of_not_mem hnode ha).symm, (ne_of_mem_of_not_mem hnbuf ha).symm,
        (ne_of_mem_of_not_mem hnode hbuf).symm, (ne_of_mem_of_not_mem hnbuf hbuf).symm⟩
    · exact absurd hin hdead

/-! ### What the account charges -/

/-- Freeing the two blocks of an object is charged to it, once each. -/
theorem Ledger.freed_pair (hap : ∀ r' ∈ L₁, Apart r' r) (hne : r.node ≠ r.buf) :
    [r.buf, r.node].foldl Ledger.freed (L₁ ++ r :: L₂)
      = L₁ ++ { r with nodeFrees := r.nodeFrees + 1, bufFrees := r.bufFrees + 1 } :: L₂ := by
  have hbuf : Ledger.freed (L₁ ++ r :: L₂) r.buf
      = L₁ ++ { r with bufFrees := r.bufFrees + 1 } :: L₂ := by
    rw [Ledger.freed, onFirst_append]
    · rw [if_neg hne]
    · intro r' hr'
      obtain ⟨-, h₂, -, h₄⟩ := hap r' hr'
      simp [h₂, h₄]
    · simp
  rw [List.foldl_cons, List.foldl_cons, List.foldl_nil, hbuf, Ledger.freed, onFirst_append]
  · rw [if_pos rfl]
  · intro r' hr'
    obtain ⟨h₁, -, h₃, -⟩ := hap r' hr'
    simp [h₁, h₃]
  · simp

/-- A close is charged to the object at the address, the newest that had it. -/
theorem Ledger.closed_eq (hap : ∀ r' ∈ L₁, Apart r' r) :
    Ledger.closed (L₁ ++ r :: L₂) r.handle = L₁ ++ { r with closes := r.closes + 1 } :: L₂ := by
  refine onFirst_append (fun r' hr' => ?_) (by simp)
  simpa [ObjRecord.handle, semAddr] using (hap r' hr').1

/-- Only one object is linked under a name, so that an unlink is charged to it. -/
theorem Tallies.linked_first (h : Tallies (l₁ ++ (a, v) :: l₂) (L₁ ++ r :: L₂))
    (hinv : RegInv k (l₁ ++ (a, v) :: l₂)) (hm : Matches (a, v) r)
    (hap : ∀ r' ∈ L₁, Apart r' r) {name : List UInt8} (hname : cstr name ≠ [])
    (hv : v.name = cstr name) :
    (∀ r' ∈ L₁, Ledger.isLinked name r' = false) ∧ Ledger.isLinked name r = true := by
  refine ⟨fun r' hr' => ?_, ?_⟩
  · by_contra hlinked
    obtain ⟨hlink, hn⟩ : r'.linked = true ∧ r'.name = cstr name := by
      simpa [Ledger.isLinked] using hlinked
    rcases h.state r' (List.mem_append_left _ hr') with ⟨x, hx, hm'⟩ | ⟨hdead, -, -⟩
    · have hxn : x.2.name = v.name := by rw [hm'.name, if_pos hlink, hn, hv]
      obtain rfl := hinv.eq_of_name hx (y := (a, v)) (by simp) (by rw [hxn, hv]; exact hname) hxn
      exact (hap r' hr').1 (hm'.node.trans hm.node.symm)
    · exact hdead (Or.inl hlink)
  · have hvn := hm.name
    rw [hv] at hvn
    cases hlink : r.linked with
    | true =>
      rw [hlink, if_pos rfl] at hvn
      simp [Ledger.isLinked, hlink, hvn]
    | false =>
      rw [hlink] at hvn
      exact absurd hvn (by simpa using hname)

/-- The account of a node without a name is not linked. -/
theorem Matches.linked_eq_false (hm : Matches (a, v) r) (hname : v.name = []) :
    r.linked = false := by
  have hvn := hm.name
  rw [hname] at hvn
  cases hlink : r.linked with
  | false => rfl
  | true =>
    rw [hlink, if_pos rfl] at hvn
    exact absurd hvn.symm hm.name_ne

/-- The blocks of a node are those of its account. -/
theorem Matches.blocks (hm : Matches (a, v) r) : [v.buf, a] = [r.buf, r.node] := by
  rw [hm.buf, hm.node]

/-- The two blocks of an object are different, so that freeing both frees each once. -/
theorem Matches.node_ne_buf {s : SemState} (hm : Matches (a, v) r)
    (hrep : Rep s (l₁ ++ (a, v) :: l₂)) : r.node ≠ r.buf := by
  rw [hm.node, hm.buf]
  exact hrep.separate.1

/-- What a successful close of a node does to the account: a close more, and what was freed. -/
theorem Ledger.record_close (hm : Matches (a, v) r) (hap : ∀ r' ∈ L₁, Apart r' r)
    {fs : List Addr} :
    Ledger.record (L₁ ++ r :: L₂) (.semClose (semAddr a), .int ⟨0, none⟩) fs
      = fs.foldl Ledger.freed (L₁ ++ { r with closes := r.closes + 1 } :: L₂) := by
  have hhandle : semAddr a = r.handle := by rw [ObjRecord.handle, hm.node]
  rw [Ledger.record, hhandle, Ledger.closed_eq hap]

/-- What a successful unlink of a node does to the account: no longer linked, and what was freed. -/
theorem Ledger.record_unlink {name : List UInt8}
    (hfirst : ∀ r' ∈ L₁, Ledger.isLinked name r' = false)
    (hr : Ledger.isLinked name r = true) {fs : List Addr} :
    Ledger.record (L₁ ++ r :: L₂) (.semUnlink name, .int ⟨0, none⟩) fs
      = fs.foldl Ledger.freed (L₁ ++ { r with linked := false } :: L₂) := by
  rw [Ledger.record, Ledger.unlinked, onFirst_append hfirst hr]

/-- No object is linked under a name that no node has, so that a creation adds the only one. -/
theorem Tallies.none_linked (h : Tallies l L) {name : List UInt8}
    (hmiss : ∀ x ∈ l, x.2.name ≠ cstr name) : L.any (Ledger.isLinked name) = false := by
  rw [List.any_eq_false]
  intro r hr hlinked
  obtain ⟨hlink, hn⟩ : r.linked = true ∧ r.name = cstr name := by
    simpa [Ledger.isLinked] using hlinked
  rcases h.state r hr with ⟨x, hx, hm⟩ | ⟨hdead, -, -⟩
  · exact hmiss x hx (by rw [hm.name, if_pos hlink, hn])
  · exact hdead (Or.inl hlink)

/-- **Step lemma.**  Every outcome of a call that leaves the account balanced keeps it in
    agreement with the list. -/
theorem Tallies.step {s : SemState} {l' : Registry} {c : SemCall} {ret : SemRet}
    {fs : List Addr} (h : Tallies l L) (hg : Good k s l) (hs : RegStep m l c ret fs l')
    (hbal : (L.record (c, ret) fs).Balanced) : Tallies l' (L.record (c, ret) fs) := by
  cases hs with
  | @openFound l₁ l₂ a v name oflag value buf new hname hv hflag =>
    have hne : ∀ x ∈ l₁ ++ l₂, x.1 ≠ a := fun x hx => (hg.rep.ne_of_mem hx).1
    obtain ⟨L₁, r, L₂, rfl, hm, hap⟩ := h.split
    obtain ⟨hfirst, hr⟩ := h.linked_first hg.inv hm hap hname hv
    have hrec : Ledger.record (L₁ ++ r :: L₂)
        (.semOpen name oflag value buf new, .ptr ⟨semAddr a, none⟩) []
        = L₁ ++ { r with opens := r.opens + 1 } :: L₂ := by
      have hany : (L₁ ++ r :: L₂).any (Ledger.isLinked name) = true :=
        List.any_eq_true.mpr ⟨r, by simp, hr⟩
      simp only [Ledger.record, List.foldl_nil, Ledger.opened, hany, if_true]
      exact onFirst_append hfirst hr
    rw [hrec]
    refine h.set hm hne ?_ rfl
    refine { hm with count := ?_, inUse := hm.inUse.imp id Nat.lt_succ_of_lt }
    have hcount : v.openCount = (r.opens : Int) - r.closes := hm.count
    show v.openCount + 1 = ((r.opens + 1 : ℕ) : Int) - r.closes
    omega
  | @openNew l name oflag value buf new hname hmiss hflag hbuf hnew hvalue =>
    have hrec : Ledger.record L (.semOpen name oflag value buf new, .ptr ⟨semAddr new, none⟩) []
        = ⟨new, buf, cstr name, 1, 0, true, 0, 0⟩ :: L := by
      simp [Ledger.record, Ledger.opened, h.none_linked hmiss, semAddr]
    rw [hrec]
    refine h.new ?_ hnew.2.2 hbuf.2
    exact ⟨rfl, rfl, by simp, by simp, hname, Or.inl rfl, rfl, rfl⟩
  | openNoMemRecord hname hmiss hflag hbuf hnew =>
    simpa [Ledger.record] using h
  | openBadValue hname hmiss hflag hbuf hnew hvalue =>
    simpa [Ledger.record] using h
  | @closeLast l₁ l₂ a v hlast hname hwait =>
    have hne : ∀ x ∈ l₁ ++ l₂, x.1 ≠ a := fun x hx => (hg.rep.ne_of_mem hx).1
    obtain ⟨L₁, r, L₂, rfl, hm, hap⟩ := h.split
    have hunlinked := hm.linked_eq_false hname
    have hcount : v.openCount = (r.opens : Int) - r.closes := hm.count
    rw [Ledger.record_close hm hap, hm.blocks,
      Ledger.freed_pair (r := { r with closes := r.closes + 1 }) hap (hm.node_ne_buf hg.rep)]
    refine h.drop hm hne rfl rfl ?_ ?_ ?_
    · show ¬(r.linked = true ∨ r.closes + 1 < r.opens)
      rw [hunlinked]
      simp only [Bool.false_eq_true, false_or]
      omega
    · show r.nodeFrees + 1 = 1
      rw [hm.nodeFrees]
    · show r.bufFrees + 1 = 1
      rw [hm.bufFrees]
  | @closeDec l₁ l₂ a v hnot hpos =>
    have hne : ∀ x ∈ l₁ ++ l₂, x.1 ≠ a := fun x hx => (hg.rep.ne_of_mem hx).1
    obtain ⟨L₁, r, L₂, rfl, hm, hap⟩ := h.split
    have hcount : v.openCount = (r.opens : Int) - r.closes := hm.count
    rw [Ledger.record_close hm hap, List.foldl_nil]
    refine h.set hm hne { hm with count := ?_, inUse := ?_ } rfl
    · show v.openCount - 1 = (r.opens : Int) - ((r.closes + 1 : ℕ) : Int)
      omega
    · show r.linked = true ∨ r.closes + 1 < r.opens
      cases hlink : r.linked with
      | true => exact Or.inl rfl
      | false =>
        have hempty : v.name = [] := by simpa [hlink] using hm.name
        have hlast : v.openCount ≠ 1 := fun h1 => hnot ⟨h1, hempty⟩
        exact Or.inr (by omega)
  | @closeZero l₁ l₂ a v hle =>
    -- the close would make the account of this object unbalanced
    obtain ⟨L₁, r, L₂, rfl, hm, hap⟩ := h.split
    have hcount : v.openCount = (r.opens : Int) - r.closes := hm.count
    rw [Ledger.record_close hm hap, List.foldl_nil] at hbal
    have hr : r.closes + 1 ≤ r.opens := hbal { r with closes := r.closes + 1 } (by simp)
    omega
  | @unlinkFree l₁ l₂ a v name hname hv hzero hwait =>
    have hne : ∀ x ∈ l₁ ++ l₂, x.1 ≠ a := fun x hx => (hg.rep.ne_of_mem hx).1
    obtain ⟨L₁, r, L₂, rfl, hm, hap⟩ := h.split
    obtain ⟨hfirst, hr⟩ := h.linked_first hg.inv hm hap hname hv
    have hcount : v.openCount = (r.opens : Int) - r.closes := hm.count
    rw [Ledger.record_unlink hfirst hr, hm.blocks,
      Ledger.freed_pair (r := { r with linked := false }) hap (hm.node_ne_buf hg.rep)]
    refine h.drop hm hne rfl rfl ?_ ?_ ?_
    · show ¬(false = true ∨ r.closes < r.opens)
      simp only [Bool.false_eq_true, false_or]
      omega
    · show r.nodeFrees + 1 = 1
      rw [hm.nodeFrees]
    · show r.bufFrees + 1 = 1
      rw [hm.bufFrees]
  | @unlinkMark l₁ l₂ a v name hname hv hopen =>
    have hne : ∀ x ∈ l₁ ++ l₂, x.1 ≠ a := fun x hx => (hg.rep.ne_of_mem hx).1
    obtain ⟨L₁, r, L₂, rfl, hm, hap⟩ := h.split
    obtain ⟨hfirst, hr⟩ := h.linked_first hg.inv hm hap hname hv
    have hcount : v.openCount = (r.opens : Int) - r.closes := hm.count
    have hnonneg : 0 ≤ v.openCount := hg.inv.nonneg (a, v) (by simp)
    rw [Ledger.record_unlink hfirst hr, List.foldl_nil]
    refine h.set hm hne { hm with name := rfl, inUse := Or.inr ?_ } rfl
    show r.closes < r.opens
    omega
  | @kernelHit l₁ l₂ a v state =>
    have hne : ∀ x ∈ l₁ ++ l₂, x.1 ≠ a := fun x hx => (hg.rep.ne_of_mem hx).1
    obtain ⟨L₁, r, L₂, rfl, hm, -⟩ := h.split
    exact h.set hm hne { hm with } rfl
  | _ => simpa [Ledger.record] using h

/-! ### Runs -/

/-- A semaphore handle that is on `psem_list`, in terms of the memory. -/
def OnList (s : SemState) (node : Addr) : Prop := ∃ l n, IsChain s l ∧ (node, n) ∈ l

/-- The call `c` frees the object `r`, or fails with `EBUSY` when threads wait on it. -/
def Frees (m : Nat) (s : SemState) (c : SemCall) (r : ObjRecord) : Prop :=
  ∃ n ret s', s.node r.node = some n ∧ semCall m s c = some (.int ret, s') ∧
    if n.sem.waiting = 0 then
      ret = ⟨0, none⟩ ∧ s'.heap.frees = s.heap.frees ++ [r.buf, r.node]
    else ret = ⟨-1, some .EBUSY⟩ ∧ s'.heap.frees = s.heap.frees

/-- What holds of the objects in every state of a balanced run. -/
structure Lifetime (m : Nat) (s : SemState) (L : Ledger) : Prop where
  /-- An object that is open or linked is on the list, and its blocks are live and were never
      freed. -/
  inUse : ∀ r ∈ L, r.InUse → OnList s r.node ∧ r.node ∈ s.heap.live ∧ r.buf ∈ s.heap.live ∧
    r.nodeFrees = 0 ∧ r.bufFrees = 0
  /-- The blocks of every other object were freed exactly once. -/
  finished : ∀ r ∈ L, ¬r.InUse → r.nodeFrees = 1 ∧ r.bufFrees = 1
  /-- The module owns two blocks for every node of the list. -/
  blocks : ∃ l, IsChain s l ∧ s.heap.live.card = 2 * l.length
  /-- The last close of an unlinked object frees it, unless a thread waits. -/
  lastClose : ∀ r ∈ L, r.linked = false → r.opens = r.closes + 1 →
    Frees m s (.semClose r.handle) r
  /-- Unlinking an object that is not open frees it, unless a thread waits. -/
  lastUnlink : ∀ r ∈ L, r.linked = true → r.opens = r.closes → ∀ name, cstr name = r.name →
    Frees m s (.semUnlink name) r

/-- A record on the list has one content, since it stands there once. -/
theorem node_unique {s : SemState} (hrep : Rep s l) (hv : (a, v) ∈ l) (hw : (a, w) ∈ l) :
    v = w := by
  obtain ⟨q, hq⟩ := hrep.node_of_mem hv
  obtain ⟨q', hq'⟩ := hrep.node_of_mem hw
  exact (Prod.mk.inj (Option.some.inj (hq.symm.trans hq'))).1

/-- The outcomes of the last close of an unlinked semaphore: both blocks are freed, or `EBUSY`. -/
theorem RegStep.lastClose {s : SemState} {l' : Registry} {ret : SemRet} {fs : List Addr}
    (hrep : Rep s l) (hv : (a, v) ∈ l) (hlast : v.openCount = 1) (hname : v.name = [])
    (hs : RegStep m l (.semClose (semAddr a)) ret fs l') :
    (v.sem.waiting = 0 ∧ ret = .int ⟨0, none⟩ ∧ fs = [v.buf, a]) ∨
      (v.sem.waiting ≠ 0 ∧ ret = .int ⟨-1, some .EBUSY⟩ ∧ fs = []) := by
  generalize hc : SemCall.semClose (semAddr a) = c at hs
  have haddr : ∀ {a'}, SemCall.semClose (semAddr a) = .semClose (semAddr a') → a = a' := by
    intro a' h
    exact Nat.add_right_cancel (SemCall.semClose.inj h)
  cases hs with
  | closeUnknown hmiss => exact absurd (SemCall.semClose.inj hc).symm (hmiss _ hv)
  | closeBusy hlast' hname' hwait =>
    obtain rfl := haddr hc
    obtain rfl := node_unique hrep hv (List.mem_append_right _ List.mem_cons_self)
    exact Or.inr ⟨hwait, rfl, rfl⟩
  | closeLast hlast' hname' hwait =>
    obtain rfl := haddr hc
    obtain rfl := node_unique hrep hv (List.mem_append_right _ List.mem_cons_self)
    exact Or.inl ⟨hwait, rfl, rfl⟩
  | closeDec hnot hpos =>
    obtain rfl := haddr hc
    obtain rfl := node_unique hrep hv (List.mem_append_right _ List.mem_cons_self)
    exact absurd ⟨hlast, hname⟩ hnot
  | closeZero hle =>
    obtain rfl := haddr hc
    obtain rfl := node_unique hrep hv (List.mem_append_right _ List.mem_cons_self)
    omega
  | _ => cases hc

/-- The outcomes of unlinking a semaphore that is not open: both blocks are freed, or `EBUSY`. -/
theorem RegStep.lastUnlink {l' : Registry} {ret : SemRet} {fs : List Addr}
    {name : List UInt8} (hinv : RegInv k l) (hv : (a, v) ∈ l) (hzero : v.openCount = 0)
    (hname : cstr name ≠ []) (hvn : v.name = cstr name)
    (hs : RegStep m l (.semUnlink name) ret fs l') :
    (v.sem.waiting = 0 ∧ ret = .int ⟨0, none⟩ ∧ fs = [v.buf, a]) ∨
      (v.sem.waiting ≠ 0 ∧ ret = .int ⟨-1, some .EBUSY⟩ ∧ fs = []) := by
  -- the record found under the name is this one
  have hone : ∀ {b w}, (b, w) ∈ l → w.name = cstr name → (a, v) = (b, w) := by
    intro b w hw hwn
    exact hinv.eq_of_name hv hw (by rw [hvn]; exact hname) (hvn.trans hwn.symm)
  cases hs with
  | unlinkEmpty hempty => exact absurd hempty hname
  | unlinkUnknown hne hmiss => exact absurd hvn (hmiss _ hv)
  | unlinkBusy hne hv' hzero' hwait =>
    obtain ⟨rfl, rfl⟩ := Prod.mk.inj (hone (List.mem_append_right _ List.mem_cons_self) hv')
    exact Or.inr ⟨hwait, rfl, rfl⟩
  | unlinkFree hne hv' hzero' hwait =>
    obtain ⟨rfl, rfl⟩ := Prod.mk.inj (hone (List.mem_append_right _ List.mem_cons_self) hv')
    exact Or.inl ⟨hwait, rfl, rfl⟩
  | unlinkMark hne hv' hopen =>
    obtain ⟨rfl, rfl⟩ := Prod.mk.inj (hone (List.mem_append_right _ List.mem_cons_self) hv')
    exact absurd hzero hopen

/-- Freeing or `EBUSY`, from the outcome of the call, in the terms of the account. -/
theorem frees_of_outcome {s s' : SemState} {c : SemCall} {ret : Ret Int} {fs : List Addr}
    (hrep : Rep s l) (hv : (a, v) ∈ l) (hm : Matches (a, v) r)
    (hcall : semCall m s c = some (.int ret, s')) (hof : s'.heap.frees = s.heap.frees ++ fs)
    (hout : (v.sem.waiting = 0 ∧ SemRet.int ret = .int ⟨0, none⟩ ∧ fs = [v.buf, a]) ∨
      (v.sem.waiting ≠ 0 ∧ SemRet.int ret = .int ⟨-1, some .EBUSY⟩ ∧ fs = [])) :
    Frees m s c r := by
  obtain ⟨q, hq⟩ := hrep.node_of_mem hv
  have hnode := node_eq_some.mpr (pointsTo_eq_some.mp hq).1
  have hra : r.node = a := hm.node
  refine ⟨_, ret, s', hra ▸ hnode, hcall, ?_⟩
  rcases hout with ⟨hwait, hret, rfl⟩ | ⟨hwait, hret, rfl⟩
  · rw [if_pos hwait]
    exact ⟨SemRet.int.inj hret, by rw [hof, hm.blocks]⟩
  · rw [if_neg hwait]
    exact ⟨SemRet.int.inj hret, by rw [hof, List.append_nil]⟩

/-- The list and the account together give the facts about lifetimes. -/
theorem Tallies.objects {s : SemState} (h : Tallies l L) (hg : Good k s l) :
    Lifetime m s L := by
  obtain ⟨C, hchain, hshow⟩ := hg.rep.chain
  -- the accounts in use are those of nodes
  have hmatch : ∀ r ∈ L, r.InUse → ∃ x ∈ l, Matches x r := by
    intro r hr huse
    rcases h.state r hr with hx | ⟨hdead, -, -⟩
    · exact hx
    · exact absurd huse hdead
  refine ⟨fun r hr huse => ?_, fun r hr hdone => ?_, ⟨C, hchain, ?_⟩,
    fun r hr hlink hone => ?_, fun r hr hlink hzero name hname => ?_⟩
  · obtain ⟨x, hx, hm⟩ := hmatch r hr huse
    refine ⟨⟨C, ?_⟩, ?_, ?_, hm.nodeFrees, hm.bufFrees⟩
    · obtain ⟨i, hi, rfl⟩ := List.getElem_of_mem hx
      have hi' : i < C.length := hshow.length_eq ▸ hi
      have haddr : C[i].1 = l[i].1 := ((List.forall₂_iff_get.mp hshow).2 i hi hi').1
      exact ⟨C[i].2, hchain, by rw [hm.node, ← haddr]; exact List.getElem_mem hi'⟩
    · exact (hg.rep.live _).mpr (Registry.mem_blocks.mpr ⟨x, hx, Or.inl hm.node⟩)
    · exact (hg.rep.live _).mpr (Registry.mem_blocks.mpr ⟨x, hx, Or.inr hm.buf⟩)
  · rcases h.state r hr with ⟨x, -, hm⟩ | ⟨-, hfrees⟩
    · exact absurd hm.inUse hdone
    · exact hfrees
  · rw [hg.rep.card_live, hshow.length_eq]
  · obtain ⟨⟨a, v⟩, hx, hm⟩ := hmatch r hr (Or.inr (by omega))
    have hcount : v.openCount = (r.opens : Int) - r.closes := hm.count
    have hempty : v.name = [] := by simpa [hlink] using hm.name
    obtain ⟨ret, s', fs, l', hcall, hstep, hof, -⟩ :=
      semClose_outcome (m := m) hg.rep hg.unlocked (semAddr a)
    have hhandle : semAddr a = r.handle := by rw [ObjRecord.handle, hm.node]
    refine frees_of_outcome hg.rep hx hm ?_ hof.frees
      (hstep.lastClose hg.rep hx (by omega) hempty)
    rw [← hhandle]
    simp [semCall, hcall]
  · obtain ⟨⟨a, v⟩, hx, hm⟩ := hmatch r hr (Or.inl hlink)
    have hcount : v.openCount = (r.opens : Int) - r.closes := hm.count
    have hvn : v.name = cstr name := by
      have hvr := hm.name
      rw [if_pos hlink] at hvr
      rw [hname]
      exact hvr
    have hne : cstr name ≠ [] := by
      rw [hname]
      exact hm.name_ne
    obtain ⟨ret, s', fs, l', hcall, hstep, hof, -⟩ :=
      semUnlink_outcome (m := m) hg.rep hg.unlocked name
    refine frees_of_outcome hg.rep hx hm ?_ hof.frees
      (hstep.lastUnlink hg.inv hx (by omega) hne hvn)
    simp [semCall, hcall]

/-- **Run lemma.**  In a balanced run the account agrees with the list. -/
theorem tallies_run {as : List (SemCall × SemRet)} {σ : SemState × Ledger}
    (h : (lifeSystem m).Run as σ) : ∃ l, Good (opens as) σ.1 l ∧ Tallies l σ.2 := by
  refine h.invariant_trace
    (I := fun as σ => ∃ l, Good (opens as) σ.1 l ∧ Tallies l σ.2) ?_ ?_
  · rintro σ rfl
    exact ⟨[], good_empty, tallies_nil⟩
  · rintro as ⟨s, L⟩ ⟨c, r⟩ ⟨s', L'⟩ - ⟨l, hg, ht⟩ hs
    obtain ⟨⟨r', s''⟩, hcall, hs⟩ := Option.bind_eq_some_iff.mp hs
    by_cases hbal : Ledger.Balanced
        (L.record (c, r') (s''.heap.frees.drop s.heap.frees.length))
    · simp only [if_pos hbal, Option.pure_def, Option.some.injEq, Prod.mk.injEq] at hs
      obtain ⟨rfl, rfl, rfl⟩ := hs
      obtain ⟨fs, l', hstep, hfrees, hg'⟩ := hg.step (m := m) hcall
      rw [hfrees, List.drop_left] at hbal ⊢
      refine ⟨l', ?_, ht.step hg hstep hbal⟩
      rw [opens_append]
      exact hg'
    · simp only [if_neg hbal, reduceCtorEq] at hs

/-- **Lifetime of named semaphores.**  In every state of a run in which closes never outnumber
    opens, the objects in use are on the list and were not freed, all others were freed exactly
    once, and the module owns two blocks for every node; the call that frees an object is the
    one that leaves it unlinked and not open, when no thread waits on it. -/
theorem lifetime {as : List (SemCall × SemRet)} {s : SemState} {L : Ledger}
    (h : (lifeSystem m).Run as (s, L)) : Lifetime m s L := by
  obtain ⟨l, hg, ht⟩ := tallies_run h
  exact ht.objects hg

/-- A name opened twice, unlinked while open, its semaphore closed twice with a thread waiting
    at the first attempt to close it for the last time, and the name opened again. -/
def drainCalls : List SemCall :=
  [.semOpen [97] ⟨true, false⟩ 1 8 16, .semOpen [97] ⟨false, false⟩ 0 0 0, .semUnlink [97],
    .semClose 20, .kernel 20 ⟨0, 1⟩, .semClose 20, .kernel 20 ⟨0, 0⟩, .semClose 20,
    .semOpen [97] ⟨true, true⟩ 0 16 8]

theorem lifetime_drain :
    ∃ rs σ, LTS.exec (lifeCall 5) drainCalls (.empty, []) = some (rs, σ) ∧
      σ.2 = [⟨8, 16, [97], 1, 0, true, 0, 0⟩, ⟨16, 8, [97], 2, 2, false, 1, 1⟩] ∧
      Lifetime 5 σ.1 σ.2 := by
  have hsome : (LTS.exec (lifeCall 5) drainCalls (.empty, [])).map (fun x => x.2.2)
      = some [⟨8, 16, [97], 1, 0, true, 0, 0⟩, ⟨16, 8, [97], 2, 2, false, 1, 1⟩] := by
    decide +kernel
  obtain ⟨⟨rs, σ⟩, hex, hL⟩ := Option.map_eq_some_iff.mp hsome
  exact ⟨rs, σ, hex, hL, lifetime (LTS.Run.exec (.init rfl) hex)⟩

end Ecos.Posix
