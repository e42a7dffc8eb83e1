import Ecos.Sqlite.UnixFile

namespace Ecos.Sqlite

open Ecos.Lib Ecos.Posix

/-!
# From a connection to its semaphore

The pointers of a connection: to its file id, to the shared information of that file id, and from
there to the semaphore with the name that is made from the canonical pathname.

* `LinkInv` — the invariant: every object has as many references as connections point to it, and
  every semaphore pointer leads to the semaphore with the name of its file id;
* `SemStep` — what a step does to the semaphores and to the lock of its connection;
* `sqlCall_result` — every step keeps the invariant and is a `SemStep`.
-/

/-- The name of the semaphore that belongs to the pathname of a connection. -/
def UnixFile.semName (f : UnixFile) : List UInt8 := Sqlite.semName (canonicalName f.path)

/-- The file ids that the connections hold, each by the reference that it took. -/
def heldIds (files : Nat → Option UnixFile) (c : Nat) : Option Addr :=
  (files c).bind fun f => some f.pId

/-- The shared information that the connections hold, each by the reference that it took. -/
def heldOpens (files : Nat → Option UnixFile) (c : Nat) : Option Addr :=
  (files c).bind UnixFile.pOpen

/-- Does every semaphore of the first table have its entry, at the same address, in the second
    one? -/
def SameSems (t t' : List UInt8 → Option NamedSem) : Prop :=
  ∀ n x, t n = some x → ∃ x', t' n = some x' ∧ x'.addr = x.addr

/-- **The invariant of the pointers.**  References are counted, and each file's shared information
    leads to its semaphore. -/
structure LinkInv (sem : SemState) (ids : RefList (List UInt8) Unit)
    (opens : RefList Addr UnixOpenCnt) (files : Nat → Option UnixFile)
    (t : List UInt8 → Option NamedSem) : Prop where
  table : TableOf sem t
  idRefs : ids.Counted (heldIds files)
  openRefs : opens.Counted (heldOpens files)
  /-- A file id has the canonical name of the pathname. -/
  canonical : ∀ c f, files c = some f →
    ∃ d, ids.get f.pId = some d ∧ d.key = canonicalName f.path
  /-- The shared information of a connection is the one of its file id. -/
  key : ∀ c f, files c = some f →
    ∀ a o, f.pOpen = some a → opens.get a = some o → o.key = f.pId
  /-- A semaphore pointer leads to the semaphore with the name of the file id. -/
  sem : ∀ a o, opens.get a = some o → o.val.pSem ≠ 0 → ∃ d x, ids.get o.key = some d ∧
    t (semName d.key) = some x ∧ o.val.pSem = semAddr x.addr
  opened : ∀ c f, files c = some f → f.stage = .opened →
    ∃ a o, f.pOpen = some a ∧ opens.get a = some o ∧ o.val.pSem ≠ 0
  idle : ∀ c f, files c = some f → f.stage = .opening ∨ f.stage = .released → f.pOpen = none

variable {sem sem' : SemState} {ids ids' : RefList (List UInt8) Unit}
  {opens opens' : RefList Addr UnixOpenCnt} {files : Nat → Option UnixFile}
  {t t' : List UInt8 → Option NamedSem} {c : Nat} {f f' : UnixFile} {m : Nat}
  {s s' : SqlState} {call : SqlCall} {r : SqlRet}

/-- The holders of the identities when one connection changes. -/
theorem heldIds_update (files : Nat → Option UnixFile) (c : Nat) (f? : Option UnixFile) :
    heldIds (Function.update files c f?)
      = Function.update (heldIds files) c (f?.bind fun f => some f.pId) := by
  ext1 d
  unfold heldIds
  by_cases hd : d = c
  · subst hd
    rw [Function.update_self, Function.update_self]
  · rw [Function.update_of_ne hd, Function.update_of_ne hd]

/-- The holders of the open counters when one connection changes. -/
theorem heldOpens_update (files : Nat → Option UnixFile) (c : Nat) (f? : Option UnixFile) :
    heldOpens (Function.update files c f?)
      = Function.update (heldOpens files) c (f?.bind UnixFile.pOpen) := by
  ext1 d
  unfold heldOpens
  by_cases hd : d = c
  · subst hd
    rw [Function.update_self, Function.update_self]
  · rw [Function.update_of_ne hd, Function.update_of_ne hd]

/-- A connection holds its identity, from `fillInUnixFile` to the end of the close. -/
theorem heldIds_of (hf : files c = some f) : heldIds files c = some f.pId := by
  unfold heldIds
  rw [hf]
  rfl

/-- It holds its open counter, when it has one. -/
theorem heldOpens_of (hf : files c = some f) : heldOpens files c = f.pOpen := by
  unfold heldOpens
  rw [hf]
  rfl

/-- A connection that keeps its file id leaves the holders as they were. -/
theorem heldIds_same {f? : Option UnixFile}
    (hid : heldIds files c = f?.bind fun f => some f.pId) :
    heldIds (Function.update files c f?) = heldIds files := by
  rw [heldIds_update, ← hid, Function.update_eq_self]

/-- A connection that keeps its shared information, or comes or goes without any. -/
theorem heldOpens_same {f? : Option UnixFile}
    (hopen : heldOpens files c = f?.bind UnixFile.pOpen) :
    heldOpens (Function.update files c f?) = heldOpens files := by
  rw [heldOpens_update, ← hopen, Function.update_eq_self]

/-- What holds of the new connection and of the others holds of all connections. -/
theorem files_forall {P : Nat → UnixFile → Prop} {f? : Option UnixFile}
    (hself : ∀ f, f? = some f → P c f) (hother : ∀ d g, d ≠ c → files d = some g → P d g)
    (d : Nat) (g : UnixFile) (hg : Function.update files c f? d = some g) : P d g := by
  by_cases hd : d = c
  · subst hd
    rw [Function.update_self] at hg
    exact hself g hg
  · rw [Function.update_of_ne hd] at hg
    exact hother d g hd hg

/-! ### The invariant under the parts of a step -/

/-- The connection goes on with the same pointers, and the invariant with it. -/
theorem LinkInv.setFile (h : LinkInv sem ids opens files t) (hf : files c = some f)
    (hpath : f'.path = f.path) (hid : f'.pId = f.pId) (hopen : f'.pOpen = f.pOpen)
    (hopened : f'.stage = .opened →
      ∃ a o, f.pOpen = some a ∧ opens.get a = some o ∧ o.val.pSem ≠ 0)
    (hidle : f'.stage = .opening ∨ f'.stage = .released → f'.pOpen = none) :
    LinkInv sem ids opens (Function.update files c (some f')) t where
  table := h.table
  idRefs := by
    rw [heldIds_same]
    · exact h.idRefs
    · exact (heldIds_of hf).trans (congrArg some hid.symm)
  openRefs := by
    rw [heldOpens_same]
    · exact h.openRefs
    · exact (heldOpens_of hf).trans hopen.symm
  canonical := by
    apply files_forall
    · rintro _ ⟨⟩
      rw [hid, hpath]
      exact h.canonical c f hf
    · exact fun d g _ => h.canonical d g
  key := by
    apply files_forall
    · rintro _ ⟨⟩
      rw [hid, hopen]
      exact h.key c f hf
    · exact fun d g _ => h.key d g
  sem := h.sem
  opened := by
    apply files_forall
    · rintro _ ⟨⟩ hstage
      rw [hopen]
      exact hopened hstage
    · exact fun d g _ => h.opened d g
  idle := by
    apply files_forall
    · rintro _ ⟨⟩
      exact hidle
    · exact fun d g _ => h.idle d g

/-- The semaphores change, but stay where they are, so the pointers to them still hold. -/
theorem LinkInv.setTable (h : LinkInv sem ids opens files t) (htable : TableOf sem' t')
    (hsame : SameSems t t') : LinkInv sem' ids opens files t' := by
  refine ⟨htable, h.idRefs, h.openRefs, h.canonical, h.key, fun a o ho hsem => ?_, h.opened,
    h.idle⟩
  obtain ⟨d, x, hd, hx, haddr⟩ := h.sem a o ho hsem
  obtain ⟨x', hx', haddr'⟩ := hsame _ x hx
  exact ⟨d, x', hd, hx', by rw [haddr, haddr']⟩

/-- A new connection finds its file id, which counts one reference more. -/
theorem LinkInv.findFileId (h : LinkInv sem ids opens files t) (hf : files c = none)
    {path : List UInt8} {id pId : Addr}
    (hacq : ids.acquire (canonicalName path) id () = some (pId, ids')) :
    LinkInv sem ids' opens
      (Function.update files c (some ⟨path, .opening, pId, none, none, .NO_LOCK, false⟩)) t where
  table := h.table
  idRefs := by
    rw [heldIds_update]
    apply h.idRefs.acquire ?_ hacq
    unfold heldIds
    rw [hf]
    rfl
  openRefs := by
    have hnone : heldOpens files c = none := by
      unfold heldOpens
      rw [hf]
      rfl
    rw [heldOpens_same]
    · exact h.openRefs
    · exact hnone
  canonical := by
    apply files_forall
    · rintro _ ⟨⟩
      exact RefList.acquire_get hacq
    · intro d g _ hg
      obtain ⟨o, ho, hkey⟩ := h.canonical d g hg
      obtain ⟨o', ho', hkey', -⟩ := RefList.acquire_kept hacq ho
      exact ⟨o', ho', hkey'.trans hkey⟩
  key := by
    apply files_forall
    · rintro _ ⟨⟩
      exact nofun
    · exact fun d g _ => h.key d g
  sem := by
    intro a o ho hsem
    obtain ⟨d, x, hd, hx, haddr⟩ := h.sem a o ho hsem
    obtain ⟨d', hd', hkey, -⟩ := RefList.acquire_kept hacq hd
    exact ⟨d', x, hd', by rw [hkey]; exact hx, haddr⟩
  opened := by
    apply files_forall
    · rintro _ ⟨⟩
      exact nofun
    · exact fun d g _ => h.opened d g
  idle := by
    apply files_forall
    · rintro _ ⟨⟩ _
      rfl
    · exact fun d g _ => h.idle d g

/-- The connection gets the shared information of its file id. -/
theorem LinkInv.acquire (h : LinkInv sem ids opens files t) (hf : files c = some f)
    (hstage : f.stage = .opening) {opn pOpen : Addr} (pLock : Option Addr)
    (hacq : opens.acquire f.pId opn ⟨0⟩ = some (pOpen, opens')) :
    LinkInv sem ids opens' (Function.update files c
      (some { f with stage := .failed, pLock, pOpen := some pOpen })) t where
  table := h.table
  idRefs := by
    rw [heldIds_same]
    · exact h.idRefs
    · rw [heldIds_of hf]
      rfl
  openRefs := by
    rw [heldOpens_update]
    apply h.openRefs.acquire ?_ hacq
    rw [heldOpens_of hf]
    exact h.idle c f hf (Or.inl hstage)
  canonical := by
    apply files_forall
    · rintro _ ⟨⟩
      exact h.canonical c f hf
    · exact fun d g _ => h.canonical d g
  key := by
    apply files_forall
    · rintro _ ⟨⟩ a o ⟨⟩ ho
      obtain ⟨o', ho', hkey⟩ := RefList.acquire_get hacq
      rw [ho] at ho'
      obtain rfl := Option.some.inj ho'
      exact hkey
    · intro d g _ hg a o ha ho
      have hheld : heldOpens files d = some a := (heldOpens_of hg).trans ha
      obtain ⟨o₀, ho₀⟩ := h.openRefs.get hheld
      obtain ⟨o', ho', hkey, -⟩ := RefList.acquire_kept hacq ho₀
      rw [ho] at ho'
      obtain rfl := Option.some.inj ho'
      exact hkey.trans (h.key d g hg a o₀ ha ho₀)
  sem := by
    intro a o ho hsem
    rcases RefList.acquire_old hacq ho with ⟨o₀, ho₀, hkey, hval⟩ | ⟨-, -, -, hval⟩
    · rw [← hval] at hsem
      rw [← hkey, ← hval]
      exact h.sem a o₀ ho₀ hsem
    · -- a new object has no semaphore yet
      rw [hval] at hsem
      exact absurd rfl hsem
  opened := by
    apply files_forall
    · rintro _ ⟨⟩
      exact nofun
    · intro d g _ hg hopened
      obtain ⟨a, o, ha, ho, hsem⟩ := h.opened d g hg hopened
      obtain ⟨o', ho', -, hval⟩ := RefList.acquire_kept hacq ho
      exact ⟨a, o', ha, ho', by rw [hval]; exact hsem⟩
  idle := by
    apply files_forall
    · rintro _ ⟨⟩ (hopening | hreleased)
      · cases hopening
      · cases hreleased
    · exact fun d g _ => h.idle d g

/-- The shared information gets a semaphore, or fails to; it had none. -/
theorem LinkInv.setPSem (h : LinkInv sem ids opens files t) {a p : Addr}
    {o : RefObj Addr UnixOpenCnt} (ho : opens.get a = some o) (hnone : o.val.pSem = 0)
    (hsem : p ≠ 0 → ∃ d x, ids.get o.key = some d ∧ t (semName d.key) = some x ∧
      p = semAddr x.addr) :
    LinkInv sem ids (opens.change a id fun _ => ⟨p⟩) files t := by
  refine ⟨h.table, h.idRefs, h.openRefs.change a _, h.canonical, fun d g hg b o' hb ho' => ?_,
    fun b o' ho' hsem' => ?_, fun d g hg hopened => ?_, h.idle⟩
  · rw [RefList.get_change] at ho'
    split at ho'
    · obtain ⟨x, hx, rfl⟩ := Option.map_eq_some_iff.mp ho'
      exact h.key d g hg b x hb hx
    · exact h.key d g hg b o' hb ho'
  · rw [RefList.get_change] at ho'
    split at ho'
    · rename_i hb
      rw [hb, ho] at ho'
      obtain rfl := Option.some.inj ho'
      exact hsem hsem'
    · exact h.sem b o' ho' hsem'
  · -- an open connection does not share it
    obtain ⟨b, o', hb, ho', hsem'⟩ := h.opened d g hg hopened
    refine ⟨b, o', hb, ?_, hsem'⟩
    rw [RefList.get_change, if_neg ?_]
    · exact ho'
    · intro heq
      rw [heq, ho] at ho'
      obtain rfl := Option.some.inj ho'
      exact hsem' hnone

/-- The connection gives its shared information back, which is freed with its last user. -/
theorem LinkInv.releaseInfo (h : LinkInv sem ids opens files t) (hf : files c = some f) {a : Addr}
    (ha : f.pOpen = some a) (hrel : opens.release a = some opens') :
    LinkInv sem ids opens' (Function.update files c
      (some { f with stage := .released, pLock := none, pOpen := none })) t where
  table := h.table
  idRefs := by
    rw [heldIds_same]
    · exact h.idRefs
    · rw [heldIds_of hf]
      rfl
  openRefs := by
    rw [heldOpens_update]
    exact h.openRefs.release ((heldOpens_of hf).trans ha) hrel
  canonical := by
    apply files_forall
    · rintro _ ⟨⟩
      exact h.canonical c f hf
    · exact fun d g _ => h.canonical d g
  key := by
    apply files_forall
    · rintro _ ⟨⟩
      exact nofun
    · intro d g _ hg b o hb ho
      obtain ⟨o₀, ho₀, hkey, -⟩ := RefList.release_old hrel ho
      exact hkey.symm.trans (h.key d g hg b o₀ hb ho₀)
  sem := by
    intro b o ho hsem
    obtain ⟨o₀, ho₀, hkey, hval⟩ := RefList.release_old hrel ho
    rw [← hval] at hsem
    rw [← hkey, ← hval]
    exact h.sem b o₀ ho₀ hsem
  opened := by
    apply files_forall
    · rintro _ ⟨⟩
      exact nofun
    · intro d g hd hg hopened
      obtain ⟨b, o, hb, ho, hsem⟩ := h.opened d g hg hopened
      -- the connection still holds it
      have hheld : Function.update (heldOpens files) c none d = some b := by
        rw [Function.update_of_ne hd]
        exact (heldOpens_of hg).trans hb
      have hcounted := h.openRefs.release ((heldOpens_of hf).trans ha) hrel
      obtain ⟨o', ho'⟩ := hcounted.get hheld
      obtain ⟨o₀, ho₀, -, hval⟩ := RefList.release_old hrel ho'
      rw [ho] at ho₀
      obtain rfl := Option.some.inj ho₀
      exact ⟨b, o', hb, ho', by rw [← hval]; exact hsem⟩
  idle := by
    apply files_forall
    · rintro _ ⟨⟩ _
      rfl
    · exact fun d g _ => h.idle d g

/-- The connection gives its file id back and is gone. -/
theorem LinkInv.releaseFileId (h : LinkInv sem ids opens files t) (hf : files c = some f)
    (hstage : f.stage = .released) (hrel : ids.release f.pId = some ids') :
    LinkInv sem ids' opens (Function.update files c none) t := by
  have hcounted : ids'.Counted (Function.update (heldIds files) c none) :=
    h.idRefs.release (heldIds_of hf) hrel
  -- the file id of another connection is still there
  have hkept : ∀ d g o, d ≠ c → files d = some g → ids.get g.pId = some o →
      ∃ o', ids'.get g.pId = some o' ∧ o'.key = o.key := by
    intro d g o hd hg ho
    have hheld : Function.update (heldIds files) c none d = some g.pId := by
      rw [Function.update_of_ne hd]
      exact heldIds_of hg
    obtain ⟨o', ho'⟩ := hcounted.get hheld
    obtain ⟨o₀, ho₀, hkey, -⟩ := RefList.release_old hrel ho'
    rw [ho] at ho₀
    obtain rfl := Option.some.inj ho₀
    exact ⟨o', ho', hkey.symm⟩
  refine ⟨h.table, ?_, ?_, ?_, ?_, fun a o ho hsem => ?_, ?_, ?_⟩
  · rw [heldIds_update]
    exact hcounted
  · have hnone : heldOpens files c = none := by
      rw [heldOpens_of hf]
      exact h.idle c f hf (Or.inr hstage)
    rw [heldOpens_same]
    · exact h.openRefs
    · exact hnone
  · apply files_forall
    · exact nofun
    · intro d g hd hg
      obtain ⟨o, ho, hkey⟩ := h.canonical d g hg
      obtain ⟨o', ho', hkey'⟩ := hkept d g o hd hg ho
      exact ⟨o', ho', hkey'.trans hkey⟩
  · apply files_forall
    · exact nofun
    · exact fun d g _ => h.key d g
  · -- shared information has a holder, which is another connection
    obtain ⟨id, x, hid, hx, haddr⟩ := h.sem a o ho hsem
    obtain ⟨S, hS, -, d, hd⟩ := h.openRefs.refs a o ho
    obtain ⟨g, hg, ha⟩ := Option.bind_eq_some_iff.mp ((hS d).mp hd)
    have hne : d ≠ c := by
      rintro rfl
      rw [hf] at hg
      obtain rfl := Option.some.inj hg
      rw [h.idle d f hf (Or.inr hstage)] at ha
      cases ha
    rw [h.key d g hg a o ha ho] at hid ⊢
    obtain ⟨id', hid', hkey⟩ := hkept d g id hne hg hid
    exact ⟨id', x, hid', by rw [hkey]; exact hx, haddr⟩
  · apply files_forall
    · exact nofun
    · exact fun d g _ => h.opened d g
  · apply files_forall
    · exact nofun
    · exact fun d g _ => h.idle d g

/-! ### What a step does -/

/-- The invariant of the pointers, of a state and the table of its semaphores. -/
def SqlState.Linked (s : SqlState) (t : List UInt8 → Option NamedSem) : Prop :=
  LinkInv s.sem s.fileList s.openList s.files t

/-- Does the connection own its semaphore, by its lock or for a moment? -/
def UnixFile.owns (f : UnixFile) : Prop := f.locktype ≠ .NO_LOCK ∨ f.probing = true

/-- Has the shared information of a file id a semaphore?  Then `fillInUnixFile` does not call
    `sem_open` for another connection to the file. -/
def SqlState.HasSem (s : SqlState) (pId : Addr) : Prop :=
  ∃ o ∈ s.openList.objs, o.key = pId ∧ o.val.pSem ≠ 0

instance (s : SqlState) (pId : Addr) : Decidable (s.HasSem pId) :=
  inferInstanceAs (Decidable (∃ o ∈ s.openList.objs, o.key = pId ∧ o.val.pSem ≠ 0))

/-- Has the call opened a connection?  Only then is there one to close. -/
def isOpened : SqlCall × SqlRet → Bool
  | (.openSem .., .rc .OK) => true
  | _ => false

/-- The connection goes on without taking or posting its semaphore. -/
structure Quieter (f f' : UnixFile) : Prop where
  path : f'.path = f.path
  owns : f'.owns → f.owns
  opened : f'.stage = .opened → f.stage = .opened
  stays : f'.owns → f.stage = .opened → f'.stage = .opened
  probing : f'.probing = true → f.probing = true ∧ f'.locktype = f.locktype

/-- Nothing happens to the lock of the connection: it has none when it comes, or gets no further
    one. -/
def Calm (f? f'? : Option UnixFile) : Prop := ∀ f', f'? = some f' →
  (¬f'.owns ∧ f'.stage ≠ .opened) ∨ ∃ f, f? = some f ∧ Quieter f f'

/-- The connection has been opened, and does not own its semaphore by that. -/
structure Opened (f f' : UnixFile) : Prop where
  path : f'.path = f.path
  before : f.stage = .opening
  stage : f'.stage = .opened
  owns : f'.owns → f.owns
  probing : f'.probing = true → f.probing = true

/-- The connection takes its semaphore: it had none, and owns it now or is about to give it back. -/
structure Takes (f f' : UnixFile) : Prop where
  path : f'.path = f.path
  before : f.stage = .opened
  stage : f'.stage = .opened
  probing : f'.probing = true → f'.locktype = f.locktype

/-- The connection posts its semaphore, which it owned: it gives up its lock, or the one that a
    probe had taken. -/
structure Posts (f f' : UnixFile) : Prop where
  path : f'.path = f.path
  before : f.owns
  opened : f'.stage = .opened → f.stage = .opened
  owns : f'.owns → f.probing = true ∧ f.locktype ≠ .NO_LOCK
  probing : f'.probing = false

/-- **What a step does** to the semaphores, and to the lock of the connection `c`. -/
inductive SemStep (s : SqlState) (t : List UInt8 → Option NamedSem) (c : Nat) :
    SqlCall → SqlRet → SqlState → (List UInt8 → Option NamedSem) → Prop
  | quiet {call : SqlCall} {r : SqlRet} {s' : SqlState} (hcalm : Calm (s.files c) (s'.files c))
      (hcall : isOpened (call, r) = false) : SemStep s t c call r s' t
  /-- The shared information has a semaphore. -/
  | shared {lock opn buf new : Addr} {s' : SqlState} {f f' : UnixFile}
      (hf : s.files c = some f) (hf' : s'.files c = some f') (hopened : Opened f f')
      (hsem : s.HasSem f.pId) : SemStep s t c (.openSem lock opn buf new) (.rc .OK) s' t
  /-- `sem_open` finds the semaphore. -/
  | reopened {lock opn buf new : Addr} {s' : SqlState} {f f' : UnixFile} {x : NamedSem}
      (hf : s.files c = some f) (hf' : s'.files c = some f') (hopened : Opened f f')
      (hnone : ¬s.HasSem f.pId) (hx : t f.semName = some x) :
      SemStep s t c (.openSem lock opn buf new) (.rc .OK) s'
        (Function.update t f.semName (some { x with openCount := x.openCount + 1 }))
  /-- `sem_open` makes the semaphore. -/
  | created {lock opn buf new : Addr} {s' : SqlState} {f f' : UnixFile}
      (hf : s.files c = some f) (hf' : s'.files c = some f') (hopened : Opened f f')
      (hnone : ¬s.HasSem f.pId) (hx : t f.semName = none) :
      SemStep s t c (.openSem lock opn buf new) (.rc .OK) s'
        (Function.update t f.semName (some ⟨new, 1, 1⟩))
  | taken {call : SqlCall} {r : SqlRet} {s' : SqlState} {f f' : UnixFile} {x : NamedSem}
      (hf : s.files c = some f) (hf' : s'.files c = some f') (htakes : Takes f f')
      (hcall : isOpened (call, r) = false) (hx : t f.semName = some x) (hpos : 0 < x.count) :
      SemStep s t c call r s'
        (Function.update t f.semName (some { x with count := x.count - 1 }))
  | posted {call : SqlCall} {r : SqlRet} {s' : SqlState} {f f' : UnixFile} {x : NamedSem}
      (hf : s.files c = some f) (hf' : s'.files c = some f') (hposts : Posts f f')
      (hcall : isOpened (call, r) = false) (hx : t f.semName = some x) : SemStep s t c call r s'
        (Function.update t f.semName (some { x with count := x.count + 1 }))
  /-- `semUnlock` raises `NO_LOCK` to `SHARED_LOCK`. -/
  | raised {r : SqlRet} {s' : SqlState} {f : UnixFile} (hf : s.files c = some f)
      (hlow : f.locktype = .NO_LOCK) : SemStep s t c (.unlock .SHARED_LOCK) r s' t

/-- The outcome of a step: the invariant, and what the step did to the semaphores. -/
def StepResult (s : SqlState) (t : List UInt8 → Option NamedSem) (c : Nat) (call : SqlCall)
    (r : SqlRet) (s' : SqlState) : Prop :=
  (∀ d, d ≠ c → s'.files d = s.files d) ∧ ∃ t', s'.Linked t' ∧ SemStep s t c call r s' t'

/-- A semaphore that changes its counts stays where it is, so that pointers to it stay right. -/
theorem sameSems_update {n : List UInt8} {x x' : NamedSem} (hx : t n = some x)
    (haddr : x'.addr = x.addr) : SameSems t (Function.update t n (some x')) := by
  intro k y hy
  by_cases hk : k = n
  · subst hk
    rw [hx] at hy
    obtain rfl := Option.some.inj hy
    exact ⟨x', Function.update_self .., haddr⟩
  · exact ⟨y, by rw [Function.update_of_ne hk]; exact hy, rfl⟩

/-- **The semaphore of an open connection** is the one with the name that is made from its
    pathname. -/
theorem pSem_eq (h : s.Linked t) (hf : s.files c = some f) (hstage : f.stage = .opened) :
    ∃ x, pSem s f = some (semAddr x.addr) ∧ t f.semName = some x := by
  obtain ⟨a, o, ha, ho, hsem⟩ := h.opened c f hf hstage
  obtain ⟨d, x, hd, hx, haddr⟩ := h.sem a o ho hsem
  obtain ⟨d', hd', hkey⟩ := h.canonical c f hf
  rw [h.key c f hf a o ha ho, hd'] at hd
  obtain rfl := Option.some.inj hd
  refine ⟨x, ?_, ?_⟩
  · unfold pSem
    rw [ha]
    show (s.openList.get a >>= fun o => some o.val.pSem) = _
    rw [ho, ← haddr]
    rfl
  · unfold UnixFile.semName
    rw [← hkey]
    exact hx

/-- The other connections are what they were when one is set. -/
theorem setFile_other (s : SqlState) (f : UnixFile) {d : Nat} (hd : d ≠ c) :
    (s.setFile c f).files d = s.files d := Function.update_of_ne hd _ _

/-- The connection is what it was set to, whatever it was before. -/
theorem setFile_self (s : SqlState) (c : Nat) (f : UnixFile) :
    (s.setFile c f).files c = some f := Function.update_self ..

/-- The connection goes on, and its semaphore changes its count. -/
theorem LinkInv.move (h : s.Linked t) (hf : s.files c = some f) (htable : TableOf sem' t')
    (hsame : SameSems t t') (hpath : f'.path = f.path) (hid : f'.pId = f.pId)
    (hopen : f'.pOpen = f.pOpen) (hopened : f'.stage = .opened → f.stage = .opened)
    (hidle : f'.stage = .opening ∨ f'.stage = .released → f'.pOpen = none) :
    ({ s with sem := sem' }.setFile c f').Linked t' :=
  LinkInv.setTable (LinkInv.setFile h hf hpath hid hopen
    (fun hstage => h.opened c f hf (hopened hstage)) hidle) htable hsame

/-- An open connection has its pointers; only before and after has it none. -/
theorem not_idle (hstage : f.stage = .opened) {p : Option Addr} :
    f.stage = .opening ∨ f.stage = .released → p = none := by
  rw [hstage]
  rintro (⟨⟨⟩⟩ | ⟨⟨⟩⟩)

/-- `semLock`: the semaphore is taken, or the connection is busy or has it already. -/
theorem semLock_result (h : s.Linked t) (hf : s.files c = some f) (hstage : f.stage = .opened)
    (hprobing : f.probing = false) {locktype : LockType}
    (hs : semLock s c f locktype = some (r, s')) :
    StepResult s t c (.lock locktype) r s' := by
  obtain ⟨x, hsem, hx⟩ := pSem_eq h hf hstage
  have hidle := fun p => not_idle hstage (p := p)
  unfold semLock at hs
  rw [hsem] at hs
  change (if f.locktype ≠ .NO_LOCK then _ else _) = _ at hs
  split at hs
  · -- the lock is held already
    rename_i hheld
    obtain ⟨rfl, rfl⟩ := Prod.mk.inj (Option.some.inj hs)
    refine ⟨fun d hd => setFile_other s _ hd, t, LinkInv.setFile h hf rfl rfl rfl
      (h.opened c f hf) (hidle _), .quiet ?_ rfl⟩
    rw [setFile_self]
    rintro _ ⟨⟩
    refine Or.inr ⟨f, hf, rfl, fun _ => Or.inl hheld, id, fun _ => id, fun hp => ?_⟩
    rw [hprobing] at hp
    cases hp
  rename_i hnone
  have hlow : f.locktype = .NO_LOCK := Decidable.not_not.mp hnone
  rcases h.table.trywait hx with ⟨-, sem', hs', htable⟩ | ⟨hpos, sem', hs', htable⟩
  · -- somebody else holds it
    rw [hs'] at hs
    obtain ⟨rfl, rfl⟩ := Prod.mk.inj (Option.some.inj hs)
    refine ⟨fun _ _ => rfl, t, LinkInv.setTable h htable fun n y hy => ⟨y, hy, rfl⟩,
      .quiet ?_ rfl⟩
    exact fun f' hf' => Or.inr ⟨f', hf', rfl, id, id, fun _ => id, fun hp => ⟨hp, rfl⟩⟩
  · rw [hs'] at hs
    obtain ⟨rfl, rfl⟩ := Prod.mk.inj (Option.some.inj hs)
    refine ⟨fun d hd => setFile_other _ _ hd, _, LinkInv.move h hf htable (sameSems_update hx rfl)
      rfl rfl rfl id (hidle _),
      .taken hf (setFile_self ..) ⟨rfl, hstage, hstage, fun hp => ?_⟩ rfl hx hpos⟩
    have hp' : f.probing = true := hp
    rw [hprobing] at hp'
    cases hp'

/-- `semUnlock`: the semaphore is posted, or only the lock type changes. -/
theorem semUnlock_result (h : s.Linked t) (hf : s.files c = some f) (hstage : f.stage = .opened)
    (hprobing : f.probing = false) {locktype : LockType}
    (hlock : locktype = .NO_LOCK ∨ locktype = .SHARED_LOCK)
    (hs : semUnlock s c f locktype = some (r, s')) :
    StepResult s t c (.unlock locktype) r s' := by
  obtain ⟨x, hsem, hx⟩ := pSem_eq h hf hstage
  have hidle := fun p => not_idle hstage (p := p)
  unfold semUnlock at hs
  rw [hsem] at hs
  change (if f.locktype = locktype then _ else if locktype = .SHARED_LOCK then _ else _) = _ at hs
  split at hs
  · obtain ⟨rfl, rfl⟩ := Prod.mk.inj (Option.some.inj hs)
    refine ⟨fun _ _ => rfl, t, h, .quiet (fun f' hf' => Or.inr ⟨f', hf', rfl, id, id, fun _ => id,
      fun hp => ⟨hp, rfl⟩⟩) rfl⟩
  rename_i hne
  split at hs
  · -- shared can just be set
    rename_i hshared
    subst hshared
    obtain ⟨rfl, rfl⟩ := Prod.mk.inj (Option.some.inj hs)
    refine ⟨fun d hd => setFile_other s _ hd, t, LinkInv.setFile h hf rfl rfl rfl
      (h.opened c f hf) (hidle _), ?_⟩
    by_cases hlow : f.locktype = .NO_LOCK
    · exact .raised hf hlow
    · refine .quiet ?_ rfl
      rw [setFile_self]
      rintro _ ⟨⟩
      refine Or.inr ⟨f, hf, rfl, fun _ => Or.inl hlow, id, fun _ => id, fun hp => ?_⟩
      rw [hprobing] at hp
      cases hp
  · -- no, really unlock
    rename_i hnot
    obtain rfl : locktype = .NO_LOCK := hlock.resolve_right hnot
    obtain ⟨sem', hs', htable⟩ := h.table.post hx
    rw [hs'] at hs
    obtain ⟨rfl, rfl⟩ := Prod.mk.inj (Option.some.inj hs)
    refine ⟨fun d hd => setFile_other _ _ hd, _, LinkInv.move h hf htable (sameSems_update hx rfl)
      rfl rfl rfl id (hidle _), .posted hf (setFile_self ..) ⟨rfl, Or.inl hne, id, ?_, hprobing⟩
      rfl hx⟩
    rintro (hlow | hp)
    · exact absurd rfl hlow
    · rw [hprobing] at hp
      cases hp

/-- `semCheckReservedLock`, up to `sem_trywait`: the semaphore is taken for a moment, or not at
    all. -/
theorem semCheckReservedLock_result (h : s.Linked t) (hf : s.files c = some f)
    (hstage : f.stage = .opened) (hs : semCheckReservedLock s c f = some (r, s')) :
    StepResult s t c .checkReservedLock r s' := by
  obtain ⟨x, hsem, hx⟩ := pSem_eq h hf hstage
  have hidle := fun p => not_idle hstage (p := p)
  have hcalm : Calm (s.files c) (s.files c) :=
    fun f' hf' => Or.inr ⟨f', hf', rfl, id, id, fun _ => id, fun hp => ⟨hp, rfl⟩⟩
  unfold semCheckReservedLock at hs
  rw [hsem] at hs
  change (if f.locktype ≠ .NO_LOCK ∧ f.locktype ≠ .SHARED_LOCK then _ else _) = _ at hs
  split at hs
  · obtain ⟨rfl, rfl⟩ := Prod.mk.inj (Option.some.inj hs)
    exact ⟨fun _ _ => rfl, t, h, .quiet hcalm rfl⟩
  rcases h.table.trywait hx with ⟨-, sem', hs', htable⟩ | ⟨hpos, sem', hs', htable⟩
  · rw [hs'] at hs
    obtain ⟨rfl, rfl⟩ := Prod.mk.inj (Option.some.inj hs)
    exact ⟨fun _ _ => rfl, t, LinkInv.setTable h htable fun n y hy => ⟨y, hy, rfl⟩,
      .quiet hcalm rfl⟩
  · rw [hs'] at hs
    obtain ⟨rfl, rfl⟩ := Prod.mk.inj (Option.some.inj hs)
    exact ⟨fun d hd => setFile_other _ _ hd, _, LinkInv.move h hf htable (sameSems_update hx rfl)
      rfl rfl rfl id (hidle _),
      .taken hf (setFile_self ..) ⟨rfl, hstage, hstage, fun _ => rfl⟩ rfl hx hpos⟩

/-- `semCheckReservedLock`, from `sem_post` on: the semaphore is given back. -/
theorem semPostBack_result (h : s.Linked t) (hf : s.files c = some f) (hstage : f.stage = .opened)
    (hprobing : f.probing = true) (hs : semPostBack s c f = some (r, s')) :
    StepResult s t c .postBack r s' := by
  obtain ⟨x, hsem, hx⟩ := pSem_eq h hf hstage
  have hidle := fun p => not_idle hstage (p := p)
  obtain ⟨sem', hs', htable⟩ := h.table.post hx
  unfold semPostBack at hs
  rw [hsem] at hs
  change (s.sem.post (semAddr x.addr) >>= _) = _ at hs
  rw [hs'] at hs
  obtain ⟨rfl, rfl⟩ := Prod.mk.inj (Option.some.inj hs)
  refine ⟨fun d hd => setFile_other _ _ hd, _, LinkInv.move h hf htable (sameSems_update hx rfl)
    rfl rfl rfl id (hidle _), .posted hf (setFile_self ..) ⟨rfl, Or.inr hprobing, id, ?_, rfl⟩
    rfl hx⟩
  rintro (hlock | hp)
  · exact ⟨hprobing, hlock⟩
  · cases hp

/-- `semUnlock(id, NO_LOCK)` in `semClose`: the semaphore is posted when the connection has it. -/
theorem semClose_result (h : s.Linked t) (hf : s.files c = some f) (hstage : f.stage = .opened)
    (hprobing : f.probing = false) (hs : Sqlite.semClose s c f = some (r, s')) :
    StepResult s t c .close r s' := by
  obtain ⟨x, hsem, hx⟩ := pSem_eq h hf hstage
  have hidle : ∀ {p : Option Addr}, FileStage.closing = .opening ∨ FileStage.closing = .released →
      p = none := by
    rintro p (⟨⟨⟩⟩ | ⟨⟨⟩⟩)
  unfold Sqlite.semClose semUnlock at hs
  rw [hsem] at hs
  change ((if f.locktype = .NO_LOCK then some (SqlRet.rc .OK, s)
    else if LockType.NO_LOCK = .SHARED_LOCK then _ else _) >>= _) = _ at hs
  split at hs
  · rename_i hlow
    change (s.files c >>= _) = _ at hs
    rw [hf] at hs
    obtain ⟨rfl, rfl⟩ := Prod.mk.inj (Option.some.inj hs)
    refine ⟨fun d hd => setFile_other s _ hd, t, LinkInv.setFile h hf rfl rfl rfl nofun hidle,
      .quiet ?_ rfl⟩
    rw [setFile_self]
    rintro _ ⟨⟩
    refine Or.inl ⟨?_, nofun⟩
    rintro (hlock | hp)
    · exact hlock hlow
    · have hp' : f.probing = true := hp
      rw [hprobing] at hp'
      cases hp'
  · rename_i hheld
    rw [if_neg (by decide)] at hs
    obtain ⟨sem', hs', htable⟩ := h.table.post hx
    rw [hs'] at hs
    change (({ s with sem := sem' }.setFile c { f with locktype := .NO_LOCK }).files c >>= _) = _
      at hs
    rw [setFile_self] at hs
    obtain ⟨rfl, rfl⟩ := Prod.mk.inj (Option.some.inj hs)
    -- the two changes of the connection are one
    have htwice : ({ s with sem := sem' }.setFile c { f with locktype := .NO_LOCK }).setFile c
        { f with locktype := .NO_LOCK, stage := .closing }
        = { s with sem := sem' }.setFile c { f with locktype := .NO_LOCK, stage := .closing } := by
      unfold SqlState.setFile
      rw [Function.update_idem]
    refine ⟨fun d hd => ?_, _, ?_, .posted hf (setFile_self ..)
      ⟨rfl, Or.inl hheld, nofun, ?_, hprobing⟩ rfl hx⟩
    · rw [setFile_other _ _ hd]
      exact setFile_other _ _ hd
    · rw [htwice]
      exact LinkInv.move h hf htable (sameSems_update hx rfl) rfl rfl rfl nofun hidle
    · rintro (hlow | hp)
      · exact absurd rfl hlow
      · have hp' : f.probing = true := hp
        rw [hprobing] at hp'
        cases hp'

/-- `releaseLockInfo` and `releaseOpenCnt` drop references, and no semaphore is closed. -/
theorem releaseInfo_result (h : s.Linked t) (hf : s.files c = some f) (hstage : f.stage = .closing)
    (hs : Sqlite.releaseInfo s c f = some (r, s')) : StepResult s t c .releaseInfo r s' := by
  obtain ⟨pLock, -, hs⟩ := Option.bind_eq_some_iff.mp hs
  obtain ⟨lockList, -, hs⟩ := Option.bind_eq_some_iff.mp hs
  obtain ⟨pOpen, hopen, hs⟩ := Option.bind_eq_some_iff.mp hs
  obtain ⟨openList, hrel, hs⟩ := Option.bind_eq_some_iff.mp hs
  obtain ⟨rfl, rfl⟩ := Prod.mk.inj (Option.some.inj hs)
  refine ⟨fun d hd => setFile_other _ _ hd, t, LinkInv.releaseInfo h hf hopen hrel,
    .quiet ?_ rfl⟩
  rw [setFile_self]
  rintro _ ⟨⟩
  refine Or.inr ⟨f, hf, rfl, id, nofun, fun _ hopened => ?_, fun hp => ⟨hp, rfl⟩⟩
  rw [hstage] at hopened
  cases hopened

/-- `vxworksReleaseFileId` drops a reference, and the connection is gone. -/
theorem releaseFileId_result (h : s.Linked t) (hf : s.files c = some f)
    (hstage : f.stage = .released) (hs : Sqlite.releaseFileId s c f = some (r, s')) :
    StepResult s t c .releaseFileId r s' := by
  obtain ⟨fileList, hrel, hs⟩ := Option.bind_eq_some_iff.mp hs
  obtain ⟨rfl, rfl⟩ := Prod.mk.inj (Option.some.inj hs)
  refine ⟨fun d hd => Function.update_of_ne hd _ _, t,
    LinkInv.releaseFileId h hf hstage hrel, .quiet ?_ rfl⟩
  have hgone : Function.update s.files c none c = none := Function.update_self ..
  intro f' hf'
  cases hgone.symm.trans hf'

/-- `vxworksFindFileId` finds the identity of the canonical name, or makes it. -/
theorem findFileId_result (h : s.Linked t) (hf : s.files c = none) {path : List UInt8} {id : Addr}
    (hs : Sqlite.findFileId s c path id = some (r, s')) :
    StepResult s t c (.findFileId path id) r s' := by
  unfold Sqlite.findFileId at hs
  split at hs
  · obtain ⟨rfl, rfl⟩ := Prod.mk.inj (Option.some.inj hs)
    refine ⟨fun _ _ => rfl, t, h, .quiet ?_ rfl⟩
    rw [hf]
    exact nofun
  · rename_i pId fileList hacq
    obtain ⟨rfl, rfl⟩ := Prod.mk.inj (Option.some.inj hs)
    refine ⟨fun d hd => setFile_other _ _ hd, t, LinkInv.findFileId h hf hacq,
      .quiet ?_ rfl⟩
    rw [setFile_self]
    rintro _ ⟨⟩
    refine Or.inl ⟨?_, nofun⟩
    rintro (hlow | hp)
    · exact hlow rfl
    · cases hp

/-! ### The steps of `fillInUnixFile` -/

/-- A connection that is not opened after all has no lock, so nothing has happened to it. -/
theorem calm_failed (hf : s.files c = some f) (hstage : f.stage = .opening) {p q : Option Addr} :
    Calm (s.files c) (some { f with stage := .failed, pLock := p, pOpen := q }) := by
  rintro _ ⟨⟩
  refine Or.inr ⟨f, hf, rfl, id, nofun, fun _ hopened => ?_, fun hp => ⟨hp, rfl⟩⟩
  rw [hstage] at hopened
  cases hopened

/-- The shared information that a connection joins has a semaphore exactly when that of its file id
    had one before: a new object has none. -/
theorem hasSem_of_acquire {k a b : Addr} {l : RefList Addr UnixOpenCnt}
    (hacq : s.openList.acquire k a ⟨0⟩ = some (b, l)) {o : RefObj Addr UnixOpenCnt}
    (ho : l.get b = some o) : s.HasSem k ↔ o.val.pSem ≠ 0 := by
  rcases RefList.acquire_cases hacq with ⟨o₀, ho₀, hkey, hget⟩ | ⟨rfl, -, -, hnone, hget⟩
  · rw [hget, if_pos rfl] at ho
    obtain rfl := Option.some.inj ho
    constructor
    · rintro ⟨o', ho', hkey', hsem⟩
      obtain rfl : o' = o₀ := RefList.eq_of_key ho' (RefList.get_eq_some.mp ho₀).1
        (hkey'.trans hkey.symm)
      exact hsem
    · exact fun hsem => ⟨o₀, (RefList.get_eq_some.mp ho₀).1, hkey, hsem⟩
  · rw [hget, if_pos rfl] at ho
    obtain rfl := Option.some.inj ho
    constructor
    · rintro ⟨o', ho', hkey', -⟩
      exact absurd hkey' (hnone _ o' (RefList.get_eq_some.mpr ⟨ho', rfl⟩))
    · exact fun hsem => absurd rfl hsem

/-- The connection becomes an open one, in two changes that are one step. -/
theorem LinkInv.setOpened {f₁ f₂ : UnixFile} {a : Addr} {o : RefObj Addr UnixOpenCnt}
    (h : LinkInv sem ids opens (Function.update files c (some f₁)) t) (hpath : f₂.path = f₁.path)
    (hid : f₂.pId = f₁.pId) (hopen : f₂.pOpen = f₁.pOpen) (hstage : f₂.stage = .opened)
    (ha : f₁.pOpen = some a) (ho : opens.get a = some o) (hsem : o.val.pSem ≠ 0) :
    LinkInv sem ids opens (Function.update files c (some f₂)) t := by
  have hset := LinkInv.setFile h (Function.update_self ..) hpath hid hopen
    (fun _ => ⟨a, o, ha, ho, hsem⟩) (not_idle hstage)
  rw [Function.update_idem] at hset
  exact hset

/-- The shared information has its new semaphore, and is otherwise as it was. -/
theorem get_setPSem {l : RefList Addr UnixOpenCnt} {a : Addr} {o : RefObj Addr UnixOpenCnt}
    (ho : l.get a = some o) (p : Addr) :
    (l.change a id fun _ => ⟨p⟩).get a = some { o with val := ⟨p⟩ } := by
  rw [RefList.get_change, if_pos rfl, ho]
  rfl

/-- The address of a semaphore is not `SEM_FAILED`, which is 0. -/
theorem semAddr_ne_failed (a : Addr) : semAddr a ≠ SEM_FAILED := Nat.succ_ne_zero (a + 3)

/-- A connection that is not opened after all goes on with its pointers. -/
theorem failed_not_idle {p : Option Addr} :
    FileStage.failed = .opening ∨ FileStage.failed = .released → p = none := by
  rintro (⟨⟨⟩⟩ | ⟨⟨⟩⟩)

/-- The shared information of the connection has got the semaphore that belongs to its file id. -/
theorem LinkInv.setOpenedSem {pLock : Option Addr} {pOpen : Addr} {d : RefObj (List UInt8) Unit}
    {o : RefObj Addr UnixOpenCnt} {x : NamedSem}
    (h : LinkInv sem ids opens (Function.update files c
      (some { f with stage := .failed, pLock, pOpen := some pOpen })) t)
    (ho : opens.get pOpen = some o) (hnone : o.val.pSem = 0) (hd : ids.get o.key = some d)
    (htable : TableOf sem' t') (hsame : SameSems t t') (hx : t' (semName d.key) = some x) :
    LinkInv sem' ids (opens.change pOpen id fun _ => ⟨semAddr x.addr⟩) (Function.update files c
      (some { f with stage := .opened, pLock, pOpen := some pOpen })) t' := by
  have hset : LinkInv sem' ids (opens.change pOpen id fun _ => ⟨semAddr x.addr⟩)
      (Function.update files c (some { f with stage := .failed, pLock, pOpen := some pOpen })) t' :=
    LinkInv.setPSem (LinkInv.setTable h htable hsame) ho hnone fun _ => ⟨d, x, hd, hx, rfl⟩
  exact LinkInv.setOpened hset rfl rfl rfl rfl rfl (get_setPSem ho _) (semAddr_ne_failed _)

/-- A semaphore with a new name leaves the others where they are. -/
theorem sameSems_new {n : List UInt8} {x : NamedSem} (hn : t n = none) :
    SameSems t (Function.update t n (some x)) := by
  intro k y hy
  refine ⟨y, ?_, rfl⟩
  rw [Function.update_of_ne ?_]
  · exact hy
  · rintro rfl
    rw [hn] at hy
    cases hy

/-- What follows `findLockInfo`: the semaphore is opened unless the shared information has one. -/
theorem openPSem_result (h : s.Linked t) (hf : s.files c = some f) (hstage : f.stage = .opening)
    {lock opn buf new pLock pOpen : Addr} {lockList : RefList Addr Unit}
    {openList : RefList Addr UnixOpenCnt}
    (hacq : s.openList.acquire f.pId opn ⟨0⟩ = some (pOpen, openList))
    (hs : openPSem m { s with lockList, openList } c
      { f with pLock := some pLock, pOpen := some pOpen } pOpen buf new = some (r, s')) :
    StepResult s t c (.openSem lock opn buf new) r s' := by
  -- the connection with its shared information
  have hjoined := LinkInv.acquire h hf hstage (some pLock) hacq
  unfold openPSem at hs
  obtain ⟨o, ho, hs⟩ := Option.bind_eq_some_iff.mp hs
  replace ho : openList.get pOpen = some o := ho
  split at hs
  · rename_i hsem
    obtain ⟨rfl, rfl⟩ := Prod.mk.inj (Option.some.inj hs)
    exact ⟨fun d hd => setFile_other _ _ hd, t,
      LinkInv.setOpened hjoined rfl rfl rfl rfl rfl ho hsem,
      .shared hf (setFile_self ..) ⟨rfl, hstage, rfl, id, id⟩
        ((hasSem_of_acquire hacq ho).mpr hsem)⟩
  rename_i hnosem
  have hnone : o.val.pSem = 0 := Decidable.not_not.mp hnosem
  have hfirst : ¬s.HasSem f.pId := fun hsem => hnosem ((hasSem_of_acquire hacq ho).mp hsem)
  obtain ⟨d, hd, hs⟩ := Option.bind_eq_some_iff.mp hs
  obtain ⟨⟨r₁, sem₁⟩, hopen, hs⟩ := Option.bind_eq_some_iff.mp hs
  obtain ⟨d', hd', hkey⟩ := h.canonical c f hf
  obtain rfl : d = d' := Option.some.inj (hd.symm.trans hd')
  have hkeyo : o.key = f.pId := by
    obtain ⟨o', ho', hk⟩ := RefList.acquire_get hacq
    rw [ho] at ho'
    obtain rfl := Option.some.inj ho'
    exact hk
  have hido : s.fileList.get o.key = some d := by
    rw [hkeyo]
    exact hd
  have hname : semName d.key = f.semName := by
    rw [hkey]
    rfl
  have hcstr : cstr f.semName = f.semName := cstr_semName f.path
  rw [hname] at hopen
  have hne : cstr f.semName ≠ [] := by
    rw [hcstr]
    exact semName_ne_nil _
  dsimp only at hs
  have hrest := h.table.semOpen hne hopen
  rw [hcstr] at hrest
  rcases hrest with ⟨x, hx, rfl, htable⟩ | ⟨hx, rfl, htable⟩ | ⟨hfail, htable⟩
  · -- the semaphore is there
    dsimp only at hs
    rw [if_neg (semAddr_ne_failed _)] at hs
    obtain ⟨rfl, rfl⟩ := Prod.mk.inj (Option.some.inj hs)
    refine ⟨fun d hd => setFile_other _ _ hd, _, ?_, .reopened hf (setFile_self ..)
      ⟨rfl, hstage, rfl, id, id⟩ hfirst hx⟩
    apply LinkInv.setOpenedSem (x := { x with openCount := x.openCount + 1 }) hjoined ho hnone
      hido htable (sameSems_update hx rfl)
    rw [hname, Function.update_self]
  · -- it is made
    dsimp only at hs
    rw [if_neg (semAddr_ne_failed _)] at hs
    obtain ⟨rfl, rfl⟩ := Prod.mk.inj (Option.some.inj hs)
    refine ⟨fun d hd => setFile_other _ _ hd, _, ?_, .created hf (setFile_self ..)
      ⟨rfl, hstage, rfl, id, id⟩ hfirst hx⟩
    apply LinkInv.setOpenedSem (x := ⟨new, 1, 1⟩) hjoined ho hnone hido htable (sameSems_new hx)
    rw [hname, Function.update_self]
  · rw [if_pos hfail, hfail] at hs
    obtain ⟨rfl, rfl⟩ := Prod.mk.inj (Option.some.inj hs)
    refine ⟨fun d hd => setFile_other _ _ hd, t, ?_, .quiet ?_ rfl⟩
    · exact LinkInv.setPSem (LinkInv.setTable hjoined htable fun n y hy => ⟨y, hy, rfl⟩) ho hnone
        fun hp => absurd rfl hp
    · rw [setFile_self]
      exact calm_failed hf hstage

/-- `findLockInfo` and what follows it under the mutex: opened, or out of memory. -/
theorem openSem_result (h : s.Linked t) (hf : s.files c = some f) (hstage : f.stage = .opening)
    {lock opn buf new : Addr} (hs : openSem m s c f lock opn buf new = some (r, s')) :
    StepResult s t c (.openSem lock opn buf new) r s' := by
  -- the connection goes on without shared information
  have hfailed : ∀ l : RefList Addr Unit,
      StepResult s t c (.openSem lock opn buf new) (.rc .NOMEM)
        ({ s with lockList := l }.setFile c { f with stage := .failed }) := by
    intro l
    refine ⟨fun d hd => setFile_other _ _ hd, t,
      LinkInv.setFile h hf rfl rfl rfl nofun failed_not_idle, .quiet ?_ rfl⟩
    rw [setFile_self]
    exact calm_failed hf hstage
  unfold openSem at hs
  split at hs
  · obtain ⟨rfl, rfl⟩ := Prod.mk.inj (Option.some.inj hs)
    exact hfailed s.lockList
  rename_i pLock lockList _
  split at hs
  · obtain ⟨lockList', -, hs⟩ := Option.bind_eq_some_iff.mp hs
    obtain ⟨rfl, rfl⟩ := Prod.mk.inj (Option.some.inj hs)
    exact hfailed lockList'
  · rename_i pOpen openList hacq
    exact openPSem_result h hf hstage hacq hs

/-- **Step lemma.**  Every step keeps the invariant of the pointers, and does one of the things of
    `SemStep`. -/
theorem sqlCall_result (h : s.Linked t) (hs : sqlCall m s (c, call) = some (r, s')) :
    StepResult s t c call r s' := by
  unfold sqlCall at hs
  split at hs
  · rename_i path id hf he
    obtain rfl : call = .findFileId path id := he
    exact findFileId_result h hf hs
  · rename_i f lock opn buf new hf he
    obtain rfl : call = .openSem lock opn buf new := he
    split at hs
    · exact openSem_result h hf ‹_› hs
    · cases hs
  · rename_i f locktype hf he
    obtain rfl : call = .lock locktype := he
    split at hs
    · rename_i hok
      exact semLock_result h hf hok.1 hok.2.1 hs
    · cases hs
  · rename_i f locktype hf he
    obtain rfl : call = .unlock locktype := he
    split at hs
    · rename_i hok
      exact semUnlock_result h hf hok.1 hok.2.1 hok.2.2 hs
    · cases hs
  · rename_i f hf he
    obtain rfl : call = .checkReservedLock := he
    split at hs
    · rename_i hok
      exact semCheckReservedLock_result h hf hok.1 hs
    · cases hs
  · rename_i f hf he
    obtain rfl : call = .postBack := he
    split at hs
    · rename_i hok
      exact semPostBack_result h hf hok.1 hok.2 hs
    · cases hs
  · rename_i f hf he
    obtain rfl : call = .close := he
    split at hs
    · rename_i hok
      exact semClose_result h hf hok.1 hok.2 hs
    · cases hs
  · rename_i f hf he
    obtain rfl : call = .releaseInfo := he
    split at hs
    · exact releaseInfo_result h hf ‹_› hs
    · cases hs
  · rename_i f hf he
    obtain rfl : call = .releaseFileId := he
    split at hs
    · exact releaseFileId_result h hf ‹_› hs
    · cases hs
  · cases hs

/-- Before the first connection the pointers are in order, for there are none. -/
theorem SqlState.Fresh.linked (h : s.Fresh m) : ∃ t, TableOf s.sem t ∧ s.Linked t := by
  obtain ⟨t, ht⟩ := tableOf_of_reachable h.sem
  have hids : heldIds s.files = fun _ => none := by
    rw [h.files]
    rfl
  have hopens : heldOpens s.files = fun _ => none := by
    rw [h.files]
    rfl
  have hfile : ∀ c f, s.files c ≠ some f := by
    intro c f
    rw [h.files]
    exact nofun
  refine ⟨t, ht, ht, ?_, ?_, fun c f hf => absurd hf (hfile c f),
    fun c f hf => absurd hf (hfile c f), fun a o ho => ?_, fun c f hf => absurd hf (hfile c f),
    fun c f hf => absurd hf (hfile c f)⟩
  · rw [h.fileList, hids]
    exact RefList.counted_empty
  · rw [h.openList, hopens]
    exact RefList.counted_empty
  · rw [h.openList, RefList.get_empty] at ho
    cases ho

end Ecos.Sqlite
