import Ecos.Ethread.KeyCreation

namespace Ecos.Ethread

open Ecos.Lib

/-!
# Which destructor is called with which value

`ethread_exit` tests a key in three reads and then reads its destructor once more, without the
lock, while other threads delete and create keys.

* `KeyLifetime`, `lifetimes` — what the calls tell about the lifetimes of a key: the destructor
  that each was created with, and what the exiting thread stored in it;
* `DestructorPairing` — each destructor is called with a value stored in its own lifetime;
* `NotReused` — between the test of a key's value and the call of its destructor, no creation of
  the key has installed a destructor and not yet planted its `NULL` in the table of the thread;
* `PairInv` — the invariant, with its step lemma `PairInv.step`;
* `destructor_pairing` — destructors and values match as long as no key is reused so.
-/

/-- A lifetime of a key, from the installing of its destructor by one `ethread_key_create` to that
    by the next. -/
structure KeyLifetime where
  destructor : Addr
  /-- What the exiting thread stored under the key. -/
  stored : List Ptr

/-- The key whose lifetime a step began, with its destructor: the step that installs the
    destructor. -/
def createdKey (b : RaceEvent × RaceOut) : Option (Nat × Addr) :=
  match b.2 with
  | .installed k d => some (k, d)
  | _ => none

/-- The key under which thread `t` stored in a step, with the value; a call that fails stores
    nothing. -/
def storedKey (t : Thread) (b : RaceEvent × RaceOut) : Option (Nat × Ptr) :=
  match b with
  | (.exit (.call u (.setspecific k p _ _)), .exit (.call o)) =>
    if u = t ∧ o.ret = .int none then some (k, p) else none
  | _ => none

/-- A lifetime in which the value `p` was stored. -/
def KeyLifetime.store (L : KeyLifetime) (p : Ptr) : KeyLifetime :=
  { L with stored := p :: L.stored }

/-- What a step does to the lifetimes of a key, the newest first. -/
def recordLifetime (t : Thread) (b : RaceEvent × RaceOut) (k : Nat)
    (Ls : List KeyLifetime) : List KeyLifetime :=
  match createdKey b with
  | some (k', d) => if k = k' then ⟨d, []⟩ :: Ls else Ls
  | none =>
    match storedKey t b with
    | some (k', p) => if k = k' then Ls.modifyHead (·.store p) else Ls
    | none => Ls

/-- The lifetimes of key `k`, the newest first, read off the steps and not off the memory. -/
def lifetimes (t : Thread) (as : List (RaceEvent × RaceOut)) (k : Nat) : List KeyLifetime :=
  as.foldl (fun Ls b => recordLifetime t b k Ls) []

/-- Each destructor that `ethread_exit` has called was not `NULL`, and was called with a value
    that the thread had stored under its key in a lifetime created with this destructor. -/
def DestructorPairing (t : Thread) (as : List (RaceEvent × RaceOut)) : Prop :=
  ∀ as₁ e k d v as₂, as = as₁ ++ (e, .exit (.destructor k d v)) :: as₂ →
    d ≠ 0 ∧ ∃ L ∈ lifetimes t as₁ k, L.destructor = d ∧ v ∈ L.stored

/-- The key whose value the exiting thread has found, until it calls the destructor: it will not
    look at the bit again. -/
def ExitPoint.committed : ExitPoint → Option Nat
  | .loadValue f | .clearValue f _ | .loadDestructor f _ => some f.key
  | _ => none

/-- The key that is being created, from the installing of its destructor until its `NULL` is
    planted in the table of thread `t`. -/
def RaceState.unplanted (s : RaceState) (t : Thread) : Option Nat :=
  s.creating.bind fun c =>
    match c.point with
    | .install => none
    | .plant i => if i ≤ s.tsd.threadData t then some c.key else none

/-- The key whose value the exiting thread has found is not one being created whose destructor is
    installed and whose value is not planted. -/
def NotReused (t : Thread) (s : RaceState) (_ : RaceEvent × RaceOut) : Prop :=
  ∀ k, s.exit.point.committed = some k → s.unplanted t ≠ some k

instance (t : Thread) (s : RaceState) (b : RaceEvent × RaceOut) : Decidable (NotReused t s b) :=
  decidable_of_iff
    (s.exit.point.committed.all (fun k => s.unplanted t ≠ some k) = true) <| by
    unfold NotReused
    cases s.exit.point.committed <;> simp

variable {cfg : EthreadConfig} {t : Thread} {s s' : RaceState} {e : RaceEvent} {out : RaceOut}
  {as bs : List (RaceEvent × RaceOut)} {k : Nat}

/-- A step more in the lifetimes of the values, so that the invariant is carried along the run. -/
theorem lifetimes_append (t : Thread) (as : List (RaceEvent × RaceOut))
    (b : RaceEvent × RaceOut) (k : Nat) :
    lifetimes t (as ++ [b]) k = recordLifetime t b k (lifetimes t as k) := by
  simp [lifetimes]

/-- One more step of the pairing, where only a destructor call has to be accounted for. -/
theorem DestructorPairing.append (h : DestructorPairing t as)
    (hnew : ∀ k d v, out = .exit (.destructor k d v) →
      d ≠ 0 ∧ ∃ L ∈ lifetimes t as k, L.destructor = d ∧ v ∈ L.stored) :
    DestructorPairing t (as ++ [(e, out)]) := by
  intro as₁ e' k d v as₂ heq
  rcases List.eq_nil_or_concat as₂ with rfl | ⟨as₃, b, rfl⟩
  · obtain ⟨rfl, hb⟩ := List.append_inj' heq rfl
    cases hb
    exact hnew k d v rfl
  · have hsplit : as ++ [(e, out)] = (as₁ ++ (e', .exit (.destructor k d v)) :: as₃) ++ [b] := by
      simpa using heq
    obtain ⟨hinit, -⟩ := List.append_inj' hsplit rfl
    exact h as₁ e' k d v as₃ hinit

/-! ### The invariant -/

/-- The newest lifetime of the key has destructor `d`, and `v` was stored in it. -/
def StoredIn (t : Thread) (as : List (RaceEvent × RaceOut)) (k : Nat) (d : Addr) (v : Ptr) :
    Prop :=
  ∃ L ∈ (lifetimes t as k).head?, L.destructor = d ∧ v ∈ L.stored

/-- What holds at each point, unless the key is being created: the value found was stored in the
    newest lifetime, whose destructor is installed. -/
def PairAt (t : Thread) (as : List (RaceEvent × RaceOut)) (s : TsdState) : ExitPoint → Prop
  | .testValue f => s.keyDestructor f.key = 0 → s.valueOf t f.key = 0
  | .loadValue f => s.keyDestructor f.key ≠ 0 ∧ s.valueOf t f.key ≠ 0
  | .clearValue f v | .loadDestructor f v =>
    s.keyDestructor f.key ≠ 0 ∧ StoredIn t as f.key (s.keyDestructor f.key) v
  | _ => True

/-- The invariant: destructors and values in memory are those of the newest lifetimes, with the
    exception of the key being created. -/
structure PairInv (cfg : EthreadConfig) (t : Thread) (as : List (RaceEvent × RaceOut))
    (s : RaceState) : Prop where
  exit : ExitInv cfg t s.exit
  /-- The destructor of a key is the one its newest lifetime was created with. -/
  destructor : ∀ k, s.tsd.keyDestructor k = ((lifetimes t as k).head?.map (·.destructor)).getD 0
  /-- The values of the thread were stored in the newest lifetimes of their keys. -/
  value : s.exit.point ≠ .returned → ∀ k, s.unplanted t ≠ some k → s.tsd.keyDestructor k ≠ 0 →
    s.tsd.valueOf t k ≠ 0 → StoredIn t as k (s.tsd.keyDestructor k) (s.tsd.valueOf t k)
  point : (∀ f, s.exit.point.keyFrame? = some f → s.unplanted t ≠ some f.key) →
    PairAt t as s.tsd s.exit.point
  pairing : DestructorPairing t as

/-- Initially the invariant holds, since no lifetime has begun and nothing was stored. -/
theorem pairInv_init (cfg : EthreadConfig) (t : Thread) : PairInv cfg t [] (.init cfg) := by
  refine ⟨exitInv_init cfg t, fun k => rfl, fun _ k _ hk => absurd rfl hk, fun _ => trivial, ?_⟩
  intro as₁ e k d v as₂ heq
  simp at heq

/-- What holds at a point is about the key that the exiting thread looks at. -/
theorem PairAt.congr {tsd tsd' : TsdState} {pt : ExitPoint} (h : PairAt t as tsd pt)
    (hsame : ∀ f, pt.keyFrame? = some f → tsd'.keyDestructor f.key = tsd.keyDestructor f.key ∧
      tsd'.valueOf t f.key = tsd.valueOf t f.key ∧
      lifetimes t bs f.key = lifetimes t as f.key) : PairAt t bs tsd' pt := by
  cases pt with
  | testValue f =>
    obtain ⟨hd, hv, -⟩ := hsame f rfl
    intro hnull
    rw [hd] at hnull
    rw [hv]
    exact h hnull
  | loadValue f =>
    obtain ⟨hd, hv, -⟩ := hsame f rfl
    exact ⟨by rw [hd]; exact h.1, by rw [hv]; exact h.2⟩
  | clearValue f v =>
    obtain ⟨hd, -, hl⟩ := hsame f rfl
    refine ⟨by rw [hd]; exact h.1, ?_⟩
    rw [hd, StoredIn, hl]
    exact h.2
  | loadDestructor f v =>
    obtain ⟨hd, -, hl⟩ := hsame f rfl
    refine ⟨by rw [hd]; exact h.1, ?_⟩
    rw [hd, StoredIn, hl]
    exact h.2
  | _ => trivial

/-! ### The calls -/

/-- The destructor of the newest lifetime after a step, which only an installing changes. -/
theorem destructor_recordLifetime (t : Thread) (b : RaceEvent × RaceOut) (k : Nat)
    (Ls : List KeyLifetime) :
    ((recordLifetime t b k Ls).head?.map (·.destructor)).getD 0 = match createdKey b with
      | some (k', d) => if k = k' then d else (Ls.head?.map (·.destructor)).getD 0
      | none => (Ls.head?.map (·.destructor)).getD 0 := by
  rw [recordLifetime]
  cases createdKey b with
  | some kd =>
    obtain ⟨k', d⟩ := kd
    by_cases hkk : k = k'
    · simp [hkk]
    · simp [hkk]
  | none =>
    cases storedKey t b with
    | none => rfl
    | some kp =>
      obtain ⟨k', p⟩ := kp
      by_cases hkk : k = k'
      · subst hkk
        cases Ls with
        | nil => simp
        | cons L Ls => simp [KeyLifetime.store]
      · simp [hkk]

/-- What a call other than `ethread_key_create` makes of a value of the exiting thread, in the
    terms of the lifetimes. -/
theorem valueAfter_eq (v : Ptr) (u : Thread) {e : TsdEvent} (hcreate : ∀ d n, e ≠ .keyCreate d n)
    (o : TsdOut) : valueAfter v ((u, e), o) t k
      = match storedKey t (.exit (.call u e), .exit (.call o)) with
        | some (k', p) => if k = k' then p else v
        | none => v := by
  cases e with
  | keyCreate d n => exact absurd rfl (hcreate d n)
  | setspecific k' p added answer =>
    simp only [storedKey]
    by_cases hut : u = t
    · cases hret : o.ret with
      | int err =>
        cases err with
        | none => simp only [valueAfter, hret, hut, true_and, if_true]
        | some err => simp [valueAfter, hret]
      | _ => simp [valueAfter, hret]
    · cases hret : o.ret with
      | int err =>
        cases err with
        | none => simp [valueAfter, hret, hut, Ne.symm hut]
        | some err => simp [valueAfter, hret, hut]
      | _ => simp [valueAfter, hret, hut]
  | _ => rfl

/-- A call other than `ethread_key_create` installs no destructor, so lifetimes begin nowhere
    else. -/
theorem KeyStep.keyDestructor_eq {tsd tsd' : TsdState} {e : TsdEvent} {o : TsdOut}
    (hs : KeyStep cfg tsd e o tsd') (hcreate : ∀ d n, e ≠ .keyCreate d n) :
    tsd'.keyDestructor = tsd.keyDestructor := by
  cases hs with
  | full => exact absurd rfl (hcreate _ _)
  | create => exact absurd rfl (hcreate _ _)
  | delete hret hk hindex hmap hdtor => exact hdtor
  | other _ _ hindex hmap hdtor => exact hdtor

/-- Another thread stores nothing for the exiting one, whatever it stores for itself. -/
theorem storedKey_other {u : Thread} (hut : u ≠ t) (e : TsdEvent) (o : TsdOut) :
    storedKey t (.exit (.call u e), .exit (.call o)) = none := by
  cases e with
  | setspecific k' p added answer => simp [storedKey, hut]
  | _ => rfl

section Call

variable {u : Thread} {e : TsdEvent} {o : TsdOut} {tsd : TsdState}

/-- A call that takes no mutex gives no thread a table, and so changes no slot number. -/
theorem threadData_call {tsd₀ : TsdState} (hcreate : ∀ d n, e ≠ .keyCreate d n)
    (hlocks : e.locks cfg tsd₀ u = false) (hs : TsdStep cfg tsd₀ u e o tsd) :
    tsd.threadData = tsd₀.threadData := by
  cases hs with
  | setNew hfree htab => simp [TsdEvent.locks, hfree, htab] at hlocks
  | _ => rfl

/-- A call leaves the creation under way where it is: what it would need the mutex for is not
    permitted. -/
theorem PairInv.unplanted_call (h : PairInv cfg t as s) (hcreate : ∀ d n, e ≠ .keyCreate d n)
    (hpermit : ∀ c, s.creating = some c → c.permits cfg t s.exit (.call u e) = true)
    (hs : stepTsd cfg s.tsd (u, e) = some (o, tsd)) :
    RaceState.unplanted { s with exit := { s.exit with tsd := tsd } } t = s.unplanted t := by
  unfold RaceState.unplanted
  cases hc : s.creating with
  | none => rfl
  | some c =>
    have hlocks : e.locks cfg s.tsd u = false := by
      have hp := hpermit c hc
      simp only [Creation.permits, Bool.and_eq_true, Bool.not_eq_true'] at hp
      exact hp.2
    have hdata : tsd.threadData = s.tsd.threadData :=
      threadData_call hcreate hlocks (stepTsd_cases h.exit.own hs)
    simp only [Option.bind_some]
    show (match c.point with
      | .install => none
      | .plant i => if i ≤ tsd.threadData t then some c.key else none) = _
    rw [hdata]

/-- What a call does to the value of a key, until the thread has returned from its exit. -/
theorem PairInv.valueOf_call (h : PairInv cfg t as s) (hcall : e.isCall = true)
    (hlive : u = t → s.exit.point ≠ .returned) (hs : stepTsd cfg s.tsd (u, e) = some (o, tsd))
    (hout : s.exit.point ≠ .returned) (k : Nat) :
    tsd.valueOf t k = valueAfter (s.tsd.valueOf t k) ((u, e), o) t k := by
  refine h.exit.own.valueOf_step (h.exit.mine hout) (h.exit.released_none hlive) ?_
    (stepTsd_cases h.exit.own hs)
  rintro - rfl
  cases hcall

/-- The values after a call were stored in the newest lifetimes of their keys, as those before it
    were. -/
theorem PairInv.value_call (h : PairInv cfg t as s) (hcall : e.isCall = true)
    (hcreate : ∀ d n, e ≠ .keyCreate d n) (hlive : u = t → s.exit.point ≠ .returned)
    (hs : stepTsd cfg s.tsd (u, e) = some (o, tsd)) (hout : s.exit.point ≠ .returned) (k : Nat)
    (hgap : s.unplanted t ≠ some k) (hk : tsd.keyDestructor k ≠ 0) (hv : tsd.valueOf t k ≠ 0) :
    StoredIn t (as ++ [(.exit (.call u e), .exit (.call o))]) k (tsd.keyDestructor k)
      (tsd.valueOf t k) := by
  have hold := h.value hout k hgap
  have hhead := h.destructor k
  rw [h.valueOf_call hcall hlive hs hout k, valueAfter_eq _ u hcreate] at hv ⊢
  rw [(stepTsd_keys hs).keyDestructor_eq hcreate] at hk ⊢
  rw [StoredIn, lifetimes_append, recordLifetime]
  simp only [createdKey]
  cases hstored : storedKey t (.exit (.call u e), .exit (.call o)) with
  | none =>
    simp only [hstored] at hv ⊢
    exact hold hk hv
  | some kp =>
    obtain ⟨k', p⟩ := kp
    simp only [hstored] at hv ⊢
    by_cases hkk : k = k'
    · -- the key has a destructor, so it has a lifetime to store in
      simp only [hkk, if_true] at hv ⊢
      rw [hkk] at hhead hk
      cases hlife : lifetimes t as k' with
      | nil =>
        rw [hlife] at hhead
        exact absurd hhead hk
      | cons L Ls =>
        rw [hlife] at hhead
        exact ⟨L.store p, rfl, hhead.symm, by simp [KeyLifetime.store]⟩
    · simp only [hkk, if_false] at hv ⊢
      exact hold hk hv

/-- What held at the point of the exiting thread holds after a call, of another thread or from a
    destructor. -/
theorem PairInv.point_call (h : PairInv cfg t as s) (hcall : e.isCall = true)
    (hcreate : ∀ d n, e ≠ .keyCreate d n) (hlive : u = t → s.exit.point ≠ .returned)
    (hs : stepTsd cfg s.tsd (u, e) = some (o, tsd)) (hpt : PairAt t as s.tsd s.exit.point) :
    PairAt t (as ++ [(.exit (.call u e), .exit (.call o))]) tsd s.exit.point := by
  by_cases hut : u = t
  · -- the exiting thread itself calls outside the loop or in a destructor
    subst hut
    rcases call_point h.exit hcall (hlive rfl) hs with hpoint | ⟨f, hpoint⟩
    · rw [hpoint]
      trivial
    · rw [hpoint]
      trivial
  · -- another thread stores nothing for it
    have hstored := storedKey_other hut e o
    refine hpt.congr fun f hf => ⟨?_, ?_, ?_⟩
    · rw [(stepTsd_keys hs).keyDestructor_eq hcreate]
    · rw [h.valueOf_call hcall hlive hs (keyFrame_frame hf).2, valueAfter_eq _ u hcreate, hstored]
    · rw [lifetimes_append, recordLifetime, hstored]
      rfl

/-- **The invariant under a call.**  Put together from the values, the creation under way and the
    point of the exit. -/
theorem PairInv.call (h : PairInv cfg t as s) (hcall : e.isCall = true)
    (hcreate : ∀ d n, e ≠ .keyCreate d n) (hlive : u = t → s.exit.point ≠ .returned)
    (hpermit : ∀ c, s.creating = some c → c.permits cfg t s.exit (.call u e) = true)
    (hs : stepTsd cfg s.tsd (u, e) = some (o, tsd)) :
    PairInv cfg t (as ++ [(.exit (.call u e), .exit (.call o))])
      { s with exit := { s.exit with tsd := tsd } } := by
  have hgap := h.unplanted_call hcreate hpermit hs
  refine ⟨h.exit.step (.call hcall hlive hs), fun k => ?_, fun hout k hk => ?_, fun hk => ?_,
    h.pairing.append nofun⟩
  · rw [lifetimes_append, destructor_recordLifetime]
    exact (congrFun ((stepTsd_keys hs).keyDestructor_eq hcreate) k).trans (h.destructor k)
  · rw [hgap] at hk
    exact h.value_call hcall hcreate hlive hs hout k hk
  · rw [hgap] at hk
    exact h.point_call hcall hcreate hlive hs (h.point hk)

end Call

/-! ### The accesses of `ethread_exit` -/

/-- The steps of `ethread_exit` and of `ethread_key_create` that install no destructor and store
    nothing do not change the lifetimes. -/
theorem lifetimes_same (hcreated : createdKey (e, out) = none)
    (hstored : storedKey t (e, out) = none) (k : Nat) :
    lifetimes t (as ++ [(e, out)]) k = lifetimes t as k := by
  rw [lifetimes_append, recordLifetime, hcreated, hstored]

/-- A step of `ethread_exit` that writes no destructor and at most clears the entry of a key. -/
theorem PairInv.own (h : PairInv cfg t as s) {e : ExitEvent} {o : ExitOut} {s' : ExitState}
    (hexit : ExitInv cfg t s') (hown : ∀ u e', e ≠ .call u e')
    (hdtor : s'.tsd.keyDestructor = s.tsd.keyDestructor)
    (hdata : s'.tsd.threadData = s.tsd.threadData)
    (hvalue : s'.point ≠ .returned → s.exit.point ≠ .returned ∧
      ∀ k, s'.tsd.valueOf t k = 0 ∨ s'.tsd.valueOf t k = s.tsd.valueOf t k)
    (hpoint : (∀ f, s'.point.keyFrame? = some f → s.unplanted t ≠ some f.key) →
      PairAt t as s'.tsd s'.point)
    (hpair : ∀ k d v, o = .destructor k d v →
      d ≠ 0 ∧ ∃ L ∈ lifetimes t as k, L.destructor = d ∧ v ∈ L.stored) :
    PairInv cfg t (as ++ [(.exit e, .exit o)]) { s with exit := s' } := by
  have hlife : ∀ k, lifetimes t (as ++ [(.exit e, .exit o)]) k = lifetimes t as k := by
    refine lifetimes_same rfl ?_
    cases e with
    | call u e' => exact absurd rfl (hown u e')
    | _ => rfl
  have hgap : RaceState.unplanted { s with exit := s' } t = s.unplanted t := by
    unfold RaceState.unplanted
    cases s.creating with
    | none => rfl
    | some c =>
      show (match c.point with
        | .install => none
        | .plant i => if i ≤ s'.tsd.threadData t then some c.key else none) = _
      rw [hdata]
      rfl
  refine ⟨hexit, fun k => ?_, fun hout k hk hne hv => ?_, fun hk => ?_,
    h.pairing.append fun k d v heq => hpair k d v (by cases heq; rfl)⟩
  · rw [hlife]
    exact (congrFun hdtor k).trans (h.destructor k)
  · obtain ⟨hout', hkeep⟩ := hvalue hout
    have hsame : s'.tsd.valueOf t k = s.tsd.valueOf t k := (hkeep k).resolve_left hv
    have hd : s'.tsd.keyDestructor k = s.tsd.keyDestructor k := congrFun hdtor k
    show StoredIn t _ k (s'.tsd.keyDestructor k) (s'.tsd.valueOf t k)
    rw [StoredIn, hlife, hsame, hd]
    refine h.value hout' k (by rwa [hgap] at hk) (fun h0 => hne (hd.trans h0)) fun h0 => ?_
    exact hv (hsame.trans h0)
  · rw [hgap] at hk
    exact (hpoint hk).congr fun f _ => ⟨rfl, rfl, hlife _⟩

/-- Nothing is claimed of a thread that goes on to a key, since it has not yet found a value. -/
theorem pairAt_toKey (s : ExitState) (f : ExitFrame) (tsd : TsdState) :
    PairAt t as tsd (s.toKey cfg t f).point := by
  unfold ExitState.toKey
  split
  · trivial
  · trivial

/-- **The invariant under the steps of `ethread_exit` and the calls.**  Here the condition is used:
    the destructor read last is that of the value. -/
theorem PairInv.exit_step (h : PairInv cfg t as s) {e : ExitEvent} {o : ExitOut} {s' : ExitState}
    (hcreate : ∀ u d n, e ≠ .call u (.keyCreate d n))
    (hpermit : ∀ c, s.creating = some c → c.permits cfg t s.exit e = true)
    (hreuse : NotReused t s (.exit e, .exit o)) (hs : ExitStep cfg t s.exit e o s') :
    PairInv cfg t (as ++ [(.exit e, .exit o)]) { s with exit := s' } := by
  have hexit := h.exit.step hs
  have hpt := h.point
  have hlive : ∀ {pt : ExitPoint}, s.exit.point = pt → pt ≠ .returned →
      s.exit.point ≠ .returned := by
    rintro pt hpoint hne
    rw [hpoint]
    exact hne
  -- at the points that the condition is about, the key is not being created
  have hclear : ∀ f, s.exit.point.committed = some f.key → s.exit.point.keyFrame? = some f →
      PairAt t as s.tsd s.exit.point := by
    intro f hcommitted hkey
    refine hpt fun f' hf' => ?_
    obtain rfl := Option.some.inj (hkey.symm.trans hf')
    exact hreuse f.key hcommitted
  cases hs with
  | call hcall hlive hs =>
    exact h.call hcall (fun d n heq => hcreate _ d n (by rw [heq])) hlive hpermit hs
  | startNone hpoint htab =>
    exact h.own hexit nofun rfl rfl (fun hout => absurd rfl hout) (fun _ => trivial) nofun
  | startScan hpoint htab =>
    exact h.own hexit nofun rfl rfl (fun _ => ⟨hlive hpoint nofun, fun k => Or.inr rfl⟩)
      (fun _ => pairAt_toKey _ _ _) nofun
  | bitFree hpoint hfree =>
    exact h.own hexit nofun rfl rfl (fun _ => ⟨hlive hpoint nofun, fun k => Or.inr rfl⟩)
      (fun _ => pairAt_toKey _ _ _) nofun
  | bitAllocated hpoint hfree =>
    exact h.own hexit nofun rfl rfl (fun _ => ⟨hlive hpoint nofun, fun k => Or.inr rfl⟩)
      (fun _ => trivial) nofun
  | destructorNull hpoint hdtor =>
    exact h.own hexit nofun rfl rfl (fun _ => ⟨hlive hpoint nofun, fun k => Or.inr rfl⟩)
      (fun _ => pairAt_toKey _ _ _) nofun
  | destructorSet hpoint hdtor =>
    exact h.own hexit nofun rfl rfl (fun _ => ⟨hlive hpoint nofun, fun k => Or.inr rfl⟩)
      (fun _ hnull => absurd hnull hdtor) nofun
  | valueNull hpoint hload =>
    exact h.own hexit nofun rfl rfl (fun _ => ⟨hlive hpoint nofun, fun k => Or.inr rfl⟩)
      (fun _ => pairAt_toKey _ _ _) nofun
  | @valueSet f value hpoint hload hvalue =>
    have hval := h.exit.valueOf_eq (by rw [hpoint]; rfl) hload
    rw [hpoint] at hpt
    refine h.own hexit nofun rfl rfl (fun _ => ⟨hlive hpoint nofun, fun k => Or.inr rfl⟩)
      (fun hk => ⟨fun hnull => ?_, ?_⟩) nofun
    · -- a key created anew since its destructor was tested has no value
      have hzero := hpt hk hnull
      exact hvalue (hval.symm.trans hzero)
    · show s.exit.tsd.valueOf t f.key ≠ 0
      rw [hval]
      exact hvalue
  | @load f value hpoint hload =>
    have hout := hlive hpoint nofun
    have hval := h.exit.valueOf_eq (by rw [hpoint]; rfl) hload
    have hat := hclear f (by rw [hpoint]; rfl) (by rw [hpoint]; rfl)
    rw [hpoint] at hat
    obtain ⟨hdtor, hne⟩ := hat
    have hstored := h.value hout f.key (hreuse f.key (by rw [hpoint]; rfl)) hdtor hne
    have hval' : s.tsd.valueOf t f.key = value := hval
    rw [hval'] at hstored
    exact h.own hexit nofun rfl rfl (fun _ => ⟨hout, fun k => Or.inr rfl⟩)
      (fun _ => ⟨hdtor, hstored⟩) nofun
  | @clear f value tsd hpoint hstore =>
    have hclr := h.exit.valueOf_clear (by rw [hpoint]; rfl) hstore
    have hat := hclear f (by rw [hpoint]; rfl) (by rw [hpoint]; rfl)
    rw [hpoint] at hat
    obtain ⟨h', d, rfl, -⟩ := storeEntry_spec hstore
    refine h.own hexit nofun rfl rfl (fun _ => ⟨hlive hpoint nofun, fun k => ?_⟩) (fun _ => hat)
      nofun
    have hkey : ∀ v, TsdState.valueOf { s.exit.tsd with heap := h' } t k = v →
        (TsdState.goto { s.exit.tsd with heap := h' } t (.scan f)).valueOf t k = v := fun _ hv => hv
    by_cases hk : k = f.key
    · exact Or.inl (hkey 0 (by rw [hclr k, if_pos hk]))
    · exact Or.inr (hkey _ (by rw [hclr k, if_neg hk]; rfl))
  | @destructor f value hpoint =>
    have hat := hclear f (by rw [hpoint]; rfl) (by rw [hpoint]; rfl)
    rw [hpoint] at hat
    obtain ⟨hdtor, L, hL, hLd, hv⟩ := hat
    refine h.own hexit nofun rfl rfl (fun _ => ⟨hlive hpoint nofun, fun k => Or.inr rfl⟩)
      (fun _ => trivial) ?_
    rintro k d v hcall
    cases hcall
    exact ⟨hdtor, L, List.mem_of_mem_head? hL, hLd, hv⟩
  | destructorReturn hpoint =>
    exact h.own hexit nofun rfl rfl (fun _ => ⟨hlive hpoint nofun, fun k => Or.inr rfl⟩)
      (fun _ => pairAt_toKey _ _ _) nofun
  | nextPass hpoint hcalled hlimit =>
    exact h.own hexit nofun rfl rfl (fun _ => ⟨hlive hpoint nofun, fun k => Or.inr rfl⟩)
      (fun _ => pairAt_toKey _ _ _) nofun
  | lastPass hpoint hlast =>
    exact h.own hexit nofun rfl rfl (fun _ => ⟨hlive hpoint nofun, fun k => Or.inr rfl⟩)
      (fun _ => trivial) nofun
  | @release f o tsd hpoint hs =>
    have hsame : tsd.keyDestructor = s.exit.tsd.keyDestructor ∧
        tsd.threadData = s.exit.tsd.threadData := by
      unfold releaseTable at hs
      dsimp only at hs
      split at hs
      · obtain ⟨rfl, rfl⟩ := Prod.mk.inj (Option.some.inj hs)
        exact ⟨rfl, rfl⟩
      · obtain ⟨h', -, hs⟩ := Option.bind_eq_some_iff.mp hs
        obtain ⟨rfl, rfl⟩ := Prod.mk.inj (Option.some.inj hs)
        exact ⟨rfl, rfl⟩
    exact h.own hexit nofun hsame.1 hsame.2 (fun hout => absurd rfl hout) (fun _ => trivial) nofun

/-! ### The accesses of `ethread_key_create` -/

/-- A step of `ethread_key_create` that installs no destructor, and changes no value but that of
    the key it has not planted yet: that key stays unplanted, or its value is `NULL` now. -/
theorem PairInv.creation (h : PairInv cfg t as s) (hreuse : NotReused t s (e, out))
    (hexit : ExitInv cfg t s'.exit) (hsame : s'.exit.point = s.exit.point)
    (hdtor : s'.tsd.keyDestructor = s.tsd.keyDestructor)
    (hcreated : createdKey (e, out) = none) (hstored : storedKey t (e, out) = none)
    (hout : ∀ k d v, out ≠ .exit (.destructor k d v))
    (hvalue : ∀ k, s'.tsd.valueOf t k = s.tsd.valueOf t k ∨
      (s.unplanted t = some k ∧ s'.tsd.valueOf t k = 0))
    (hgap : s.exit.point ≠ .returned → ∀ k, s.unplanted t = some k →
      s'.unplanted t = some k ∨ s'.tsd.valueOf t k = 0) :
    PairInv cfg t (as ++ [(e, out)]) s' := by
  have hlife : ∀ k, lifetimes t (as ++ [(e, out)]) k = lifetimes t as k :=
    lifetimes_same hcreated hstored
  refine ⟨hexit, fun k => ?_, fun hpt k hk hne hv => ?_, fun hk => ?_,
    h.pairing.append fun k d v heq => absurd heq (hout k d v)⟩
  · rw [hlife, hdtor, h.destructor k]
  · rw [hsame] at hpt
    have hold : s'.tsd.valueOf t k = s.tsd.valueOf t k :=
      (hvalue k).resolve_right fun hzero => hv hzero.2
    have hplanted : s.unplanted t ≠ some k := fun hs =>
      (hgap hpt k hs).elim (fun hs' => hk hs') fun hzero => hv hzero
    rw [hdtor] at hne ⊢
    rw [hold] at hv ⊢
    rw [StoredIn, hlife]
    exact h.value hpt k hplanted hne hv
  · rw [hsame] at hk ⊢
    by_cases hplanted : ∀ f, s.exit.point.keyFrame? = some f → s.unplanted t ≠ some f.key
    · -- the key of the exiting thread is another one
      refine (h.point hplanted).congr fun f hf => ⟨by rw [hdtor], ?_, hlife _⟩
      exact (hvalue f.key).resolve_right fun hzero => hplanted f hf hzero.1
    · -- its value is `NULL` now, and was not found before
      simp only [not_forall, not_not] at hplanted
      obtain ⟨f, hf, hfk⟩ := hplanted
      have hzero : s'.tsd.valueOf t f.key = 0 :=
        (hgap (keyFrame_frame hf).2 f.key hfk).resolve_left (hk f hf)
      have hnot : s.exit.point.committed ≠ some f.key := fun hc => hreuse f.key hc hfk
      cases hpoint : s.exit.point with
      | testValue f' =>
        rw [hpoint] at hf
        obtain rfl := Option.some.inj hf
        exact fun _ => hzero
      | loadValue f' =>
        rw [hpoint] at hf hnot
        obtain rfl := Option.some.inj hf
        exact absurd rfl hnot
      | clearValue f' v =>
        rw [hpoint] at hf hnot
        obtain rfl := Option.some.inj hf
        exact absurd rfl hnot
      | loadDestructor f' v =>
        rw [hpoint] at hf hnot
        obtain rfl := Option.some.inj hf
        exact absurd rfl hnot
      | _ => trivial

/-- Which key is unplanted, during the loop of a creation: the one created, until the loop has
    passed the slot of the thread. -/
theorem unplanted_plant {c : Creation} {i : Nat} (hc : s.creating = some c)
    (hpoint : c.point = .plant i) :
    s.unplanted t = if i ≤ s.tsd.threadData t then some c.key else none := by
  simp [RaceState.unplanted, hc, hpoint]

/-- The thread whose slot is past the last one has no table, so its values are `NULL`. -/
theorem ExitInv.valueOf_past {s : ExitState} (h : ExitInv cfg t s)
    (hpast : cfg.threadsMax ≤ s.tsd.threadData t) (k : Nat) : s.tsd.valueOf t k = 0 := by
  refine TsdState.valueOf_none ?_
  by_contra htab
  have hlt := h.own.range _ htab
  omega

/-- **The invariant when the loop goes on.**  The slot `i` is planted, or there is no table in
    it. -/
theorem PairInv.plant (h : PairInv cfg t as s) (hreuse : NotReused t s (.createNext, .none))
    {c : Creation} {i : Nat} {tsd : TsdState} (hc : s.creating = some c)
    (hpoint : c.point = .plant i)
    (hexit : ExitInv cfg t (s.set tsd (some { c with point := .plant (i + 1) })).exit)
    (hdtor : tsd.keyDestructor = s.tsd.keyDestructor)
    (hdata : tsd.threadData = s.tsd.threadData)
    (hvalue : ∀ k, tsd.valueOf t k
      = if i = s.tsd.threadData t ∧ k = c.key then 0 else s.tsd.valueOf t k) :
    PairInv cfg t (as ++ [(.createNext, .none)])
      (s.set tsd (some { c with point := .plant (i + 1) })) := by
  have hgap := unplanted_plant (t := t) hc hpoint
  have hgap' : (s.set tsd (some { c with point := .plant (i + 1) })).unplanted t
      = if i + 1 ≤ s.tsd.threadData t then some c.key else none := by
    rw [unplanted_plant (c := { c with point := .plant (i + 1) }) rfl rfl]
    show (if i + 1 ≤ tsd.threadData t then _ else _) = _
    rw [hdata]
  refine h.creation hreuse hexit rfl hdtor rfl rfl nofun (fun k => ?_) fun _ k hk => ?_
  · -- only the slot of the thread holds its values
    show tsd.valueOf t k = s.tsd.valueOf t k ∨ (_ ∧ tsd.valueOf t k = 0)
    rw [hvalue k, hgap]
    by_cases hik : i = s.tsd.threadData t ∧ k = c.key
    · rw [if_pos hik, if_pos (by omega), hik.2]
      exact Or.inr ⟨rfl, rfl⟩
    · rw [if_neg hik]
      exact Or.inl rfl
  · show _ ∨ tsd.valueOf t k = 0
    rw [hgap] at hk
    rw [hgap', hvalue k]
    split at hk
    · rename_i hle
      obtain rfl := Option.some.inj hk
      by_cases hi : i = s.tsd.threadData t
      · exact Or.inr (if_pos ⟨hi, rfl⟩)
      · exact Or.inl (if_pos (by omega))
    · cases hk

/-- **The invariant when a destructor is installed.**  A lifetime of the key begins, and its value
    in the table of the thread is one of the lifetime before, until it is planted. -/
theorem PairInv.install (h : PairInv cfg t as s) {c : Creation} (hc : s.creating = some c)
    (hpoint : c.point = .install)
    (hexit : ExitInv cfg t (s.set { s.tsd with
      keyDestructor := Function.update s.tsd.keyDestructor c.key c.destructor }
      (some { c with point := .plant 1 })).exit) :
    PairInv cfg t (as ++ [(.createNext, .installed c.key c.destructor)])
      (s.set { s.tsd with
        keyDestructor := Function.update s.tsd.keyDestructor c.key c.destructor }
        (some { c with point := .plant 1 })) := by
  have hgap : s.unplanted t = none := by simp [RaceState.unplanted, hc, hpoint]
  have hgap' : (s.set { s.tsd with
      keyDestructor := Function.update s.tsd.keyDestructor c.key c.destructor }
      (some { c with point := .plant 1 })).unplanted t
      = if 1 ≤ s.tsd.threadData t then some c.key else none :=
    unplanted_plant (c := { c with point := .plant 1 }) rfl rfl
  have hlife : ∀ k ≠ c.key,
      lifetimes t (as ++ [(.createNext, .installed c.key c.destructor)]) k = lifetimes t as k := by
    intro k hk
    rw [lifetimes_append, recordLifetime]
    simp [createdKey, hk]
  refine ⟨hexit, fun k => ?_, fun hpt k hk hne hv => ?_, fun hk => ?_, h.pairing.append nofun⟩
  · rw [lifetimes_append, destructor_recordLifetime]
    show Function.update s.tsd.keyDestructor c.key c.destructor k = _
    by_cases hkk : k = c.key
    · simp [createdKey, hkk]
    · simp only [createdKey, hkk, if_false, Function.update_of_ne hkk]
      exact h.destructor k
  · rw [hgap'] at hk
    have hv' : s.tsd.valueOf t k ≠ 0 := hv
    by_cases hkk : k = c.key
    · -- a thread without a slot has stored nothing
      have hslot : s.tsd.threadData t = 0 := by
        by_contra hne0
        rw [if_pos (by omega), hkk] at hk
        exact hk rfl
      exact absurd (TsdState.valueOf_none (by rw [hslot]; exact h.exit.own.slot0)) hv'
    · have hd : Function.update s.tsd.keyDestructor c.key c.destructor k = s.tsd.keyDestructor k :=
        Function.update_of_ne hkk _ _
      show StoredIn t _ k (Function.update s.tsd.keyDestructor c.key c.destructor k)
        (s.tsd.valueOf t k)
      rw [StoredIn, hlife k hkk, hd]
      refine h.value hpt k (by rw [hgap]; nofun) (fun h0 => hne (hd.trans h0)) hv'
  · -- the exiting thread has a slot, so the key it looks at is another one
    refine (h.point fun f _ => by rw [hgap]; nofun).congr fun f hf => ?_
    obtain ⟨-, hidx, hslot, hne⟩ := h.exit.frame (keyFrame_frame hf).1
    have hslot0 : s.tsd.threadData t ≠ 0 := by
      intro h0
      have htab : s.tsd.threadTable (s.tsd.threadData t) = 0 := by
        rw [h0]
        exact h.exit.own.slot0
      exact hne (hslot.symm.trans ((congrArg _ hidx.symm).trans htab))
    have hfk : f.key ≠ c.key := by
      intro heq
      refine hk f hf ?_
      rw [hgap', if_pos (by omega), heq]
    exact ⟨Function.update_of_ne hfk _ _, rfl, hlife _ hfk⟩

/-- The values of the thread after planting a key in slot `i`: the key's is `NULL` when the slot is
    the thread's. -/
theorem ExitInv.valueOf_plant {s : ExitState} (h : ExitInv cfg t s) {i key : Nat} {tsd : TsdState}
    (htab : s.tsd.threadTable i ≠ 0)
    (hstore : s.tsd.storeEntry cfg (s.tsd.threadTable i) key 0 = some tsd) (k : Nat) :
    tsd.valueOf t k = if i = s.tsd.threadData t ∧ k = key then 0 else s.tsd.valueOf t k := by
  obtain ⟨h', d, rfl, -, -, hd, hc⟩ := storeEntry_spec hstore
  simp only [TsdState.valueOf, hc]
  by_cases hi : i = s.tsd.threadData t
  · subst hi
    rw [Function.update_self, hd]
    by_cases hk : k = key
    · simp [hk]
    · simp [hk]
  · -- a table is in one slot only
    have hne : s.tsd.threadTable (s.tsd.threadData t) ≠ s.tsd.threadTable i := fun heq =>
      hi (h.own.slot_unique htab heq.symm)
    rw [Function.update_of_ne hne, if_neg fun hand => hi hand.1]

/-! ### The step lemma -/

/-- **Step lemma.**  One case for each exit of `RaceStep`. -/
theorem PairInv.step (h : PairInv cfg t as s) (hreuse : NotReused t s (e, out))
    (hs : RaceStep cfg t s e out s') : PairInv cfg t (as ++ [(e, out)]) s' := by
  have hexit := hs.exitInv h.exit
  cases hs with
  | exit hcall hpermit hs => exact h.exit_step hcall hpermit hreuse hs
  | full hfree =>
    refine h.creation hreuse hexit rfl rfl rfl rfl nofun (fun k => Or.inl rfl) fun _ k hk => ?_
    simp [RaceState.unplanted, hfree] at hk
  | found hfree halloc =>
    refine h.creation hreuse hexit rfl rfl rfl rfl nofun (fun k => Or.inl rfl) fun _ k hk => ?_
    simp [RaceState.unplanted, hfree] at hk
  | install hc hpoint => exact h.install hc hpoint hexit
  | @skip c i hc hpoint hi htab =>
    refine h.plant hreuse hc hpoint hexit rfl rfl fun k => ?_
    split
    · rename_i hik
      exact TsdState.valueOf_none (by rw [← hik.1]; exact htab)
    · rfl
  | plant hc hpoint hi htab hstore =>
    have hvalue := h.exit.valueOf_plant htab hstore
    obtain ⟨h', d, rfl, -⟩ := storeEntry_spec hstore
    exact h.plant hreuse hc hpoint hexit rfl rfl hvalue
  | @done c i hc hpoint hi =>
    refine h.creation hreuse hexit rfl rfl rfl rfl nofun (fun k => Or.inl rfl) fun _ k hk => ?_
    rw [unplanted_plant hc hpoint] at hk
    split at hk
    · -- the loop is over, and the thread's slot would be past it
      exact Or.inr (h.exit.valueOf_past (Nat.le_trans hi ‹_›) k)
    · cases hk

/-- **Destructor pairing.**  When `ethread_exit`, between the test of a key's value and the call of
    its destructor, never is beside an `ethread_key_create` that has installed a destructor for the
    same key and not yet planted a `NULL` in the table of the thread, every destructor call is
    `d(v)` with `d` not `NULL`, `v` stored under the key by the thread, and `d` the destructor of
    the lifetime in which `v` was stored. -/
theorem destructor_pairing (h : ((raceSystem cfg t).restrict (NotReused t)).Run as s) :
    DestructorPairing t as := by
  have hinv : PairInv cfg t as s := by
    refine h.invariant_trace (I := PairInv cfg t) ?_ ?_
    · rintro s rfl
      exact pairInv_init cfg t
    · rintro as s ⟨e, out⟩ s' - ih ⟨hs, hreuse⟩
      exact ih.step hreuse (stepRace_cases hs)
  exact hinv.pairing

/-- A whole call of `ethread_key_create` with the default configuration, which has 65 slots to
    plant or pass. -/
def createWhole (u : Thread) (destructor : Addr) : List RaceEvent :=
  .createKey u destructor 0 :: List.replicate 66 .createNext

/-- Thread 1 stores a value under key 0 and exits, up to the call of the destructor. -/
def exitToCall : List RaceEvent :=
  createWhole 1 9 ++ [.exit (.call 1 (.setspecific 0 5 true 8)), .exit .start]
    ++ List.replicate 5 (.exit .next)

/-- Thread 2 deletes the key in time: after the tests, and before the destructor is called. -/
def exitWithDelete : List RaceEvent :=
  exitToCall ++ [.exit (.call 2 (.keyDelete 0)), .exit .next]

/-- A key is deleted while the thread exits, and its destructor is still called with the value of
    its lifetime. -/
theorem destructor_pairing_delete :
    ∃ os s, LTS.exec (LTS.guard (stepRace defaultConfig 1) (NotReused 1)) exitWithDelete
        (.init defaultConfig) = some (os, s) ∧
      os.getLast? = some (.exit (.destructor 0 9 5)) ∧
      DestructorPairing 1 (exitWithDelete.zip os) := by
  have hout : (LTS.exec (LTS.guard (stepRace defaultConfig 1) (NotReused 1)) exitWithDelete
      (.init defaultConfig)).map (fun x => x.1.getLast?)
        = some (some (.exit (.destructor 0 9 5))) := by decide +kernel
  obtain ⟨⟨os, s⟩, hex, hlast⟩ := Option.map_eq_some_iff.mp hout
  have hpair := destructor_pairing (LTS.Run.exec_restrict (.init rfl) hex)
  exact ⟨os, s, hex, hlast, hpair⟩

/-- Thread 2 deletes the key and begins to create it again, with another destructor: the
    destructor is installed, and the values are not planted. -/
def exitWithReuse : List RaceEvent :=
  exitToCall ++ [.exit (.call 2 (.keyDelete 0)), .createKey 2 7 0, .createNext, .exit .next]

/-- The lifetimes of key 0 before the last step, as pairs that can be compared. -/
def lifetimesBefore (as : List (RaceEvent × RaceOut)) : List (Addr × List Ptr) :=
  (lifetimes 1 as.dropLast 0).map fun L => (L.destructor, L.stored)

/-- **The wrong destructor.**  The value 5 was stored when the destructor was 9, and 7 is
    called. -/
theorem reused_destructor :
    ¬∀ as s, (raceSystem defaultConfig 1).Run as s → DestructorPairing 1 as := by
  intro hall
  have hout : (LTS.exec (stepRace defaultConfig 1) exitWithReuse (.init defaultConfig)).map
      (fun x => ((exitWithReuse.zip x.1).getLast?, lifetimesBefore (exitWithReuse.zip x.1)))
        = some (some (.exit .next, .exit (.destructor 0 7 5)), [(7, []), (9, [5])]) := by
    decide +kernel
  obtain ⟨⟨os, s⟩, hex, hfacts⟩ := Option.map_eq_some_iff.mp hout
  obtain ⟨hlast, hlife⟩ := Prod.mk.inj hfacts
  have hpair : DestructorPairing 1 (exitWithReuse.zip os) :=
    hall _ s (LTS.Run.exec (.init rfl) hex)
  have hsplit := List.dropLast_append_getLast? _ (Option.mem_def.mpr hlast)
  obtain ⟨-, L, hL, hdtor, hstored⟩ := hpair _ (.exit .next) 0 7 5 [] hsplit.symm
  have hmem : (L.destructor, L.stored) ∈ lifetimesBefore (exitWithReuse.zip os) :=
    List.mem_map_of_mem hL
  rw [hlife] at hmem
  simp only [List.mem_cons, List.not_mem_nil, or_false, Prod.mk.injEq] at hmem
  rcases hmem with ⟨-, hempty⟩ | ⟨hnine, -⟩
  · rw [hempty] at hstored
    cases hstored
  · rw [hdtor] at hnine
    exact absurd hnine (by decide)

end Ecos.Ethread
