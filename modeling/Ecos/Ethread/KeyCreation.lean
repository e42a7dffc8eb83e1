import Ecos.Ethread.Exit

namespace Ecos.Ethread

open Ecos.Lib

/-!
# `ethread_key_create`, access by access

`ethread_key_create` holds the mutex from the search for a key to its return, but `ethread_exit`
takes no mutex for its reads.  It can see a key whose bit is cleared and whose destructor is not
installed, and one whose destructor is installed and whose values are not yet planted with `NULL`.

* `Creation`, `createKey`, `createNext` — `ethread_key_create` in steps;
* `RaceState`, `stepRace`, `raceSystem` — beside them, the steps of `stepExit`, as far as these do
  not need the mutex;
* `keyCreate_steps` — a creation that is not interrupted is `keyCreate`;
* `exitRun_races` — so the runs with `keyCreate` as one step are among those of `raceSystem`;
* `RaceStep`, `RaceInv` — what the steps do, and the invariant of the tables.
-/

/-- Before which of its accesses `ethread_key_create` is, after it has cleared the key's bit. -/
inductive CreatePoint
  /-- `key_destructor[k] = destructor` -/
  | install
  /-- `thread_data[k] = NULL` in the table of slot `i`; past the last slot, the return. -/
  | plant (i : Nat)
  deriving DecidableEq, Repr

/-- A call of `ethread_key_create` that has found a key and holds the mutex until it returns. -/
structure Creation where
  thread : Thread
  key : Nat
  destructor : Addr
  point : CreatePoint
  deriving DecidableEq, Repr

/-- The exiting thread and the memory, and the call of `ethread_key_create` under way; the mutex
    admits one at a time. -/
structure RaceState where
  exit : ExitState
  creating : Option Creation

/-- What can happen: the exiting thread goes on, a thread calls the layer, or a creation under way
    makes its next access. -/
inductive RaceEvent
  /-- A step of the exiting thread, or a call other than `ethread_key_create`. -/
  | exit (e : ExitEvent)
  /-- A thread calls `ethread_key_create`, which looks for a key and clears its bit. -/
  | createKey (u : Thread) (destructor : Addr) (newIndex : Nat)
  /-- The next access of the `ethread_key_create` under way. -/
  | createNext
  deriving DecidableEq, Repr

/-- What can be seen of it; the installing of a destructor is where a lifetime of the key begins. -/
inductive RaceOut
  | exit (out : ExitOut)
  /-- `ethread_key_create` has installed the destructor of a key. -/
  | installed (key : Nat) (destructor : Addr)
  /-- `ethread_key_create` returns. -/
  | created (ret : TsdRet)
  | none
  deriving DecidableEq, Repr

/-- Does the call take the mutex?  `ethread_setspecific` does to get the thread a table, and only
    then. -/
def TsdEvent.locks (cfg : EthreadConfig) (s : TsdState) (u : Thread) : TsdEvent → Bool
  | .keyCreate .. | .keyDelete _ => true
  | .setspecific key .. => !s.keyFree cfg key && s.threadTable (s.threadData u) = 0
  | _ => false

variable (cfg : EthreadConfig) (t : Thread)

/-- Can the event happen while `c` holds the mutex?  The thread in `c` makes no other step, and no
    other thread one that takes the mutex. -/
def Creation.permits (c : Creation) (s : ExitState) : ExitEvent → Bool
  | .call u e => c.thread ≠ u && !e.locks cfg s.tsd u
  | .start | .destructorReturn => c.thread ≠ t
  | .next => match s.point with
    | .release _ => false
    | _ => true

namespace RaceState

/-- Initially nothing was called, and no creation is under way. -/
def init : RaceState where
  exit := .init cfg
  creating := none

/-- The memory of the module, which both sides share. -/
def tsd (s : RaceState) : TsdState := s.exit.tsd

/-- The state with other memory, and the creation at another point; the exiting thread stays where
    it is. -/
def set (s : RaceState) (tsd : TsdState) (creating : Option Creation) : RaceState where
  exit := { s.exit with tsd := tsd }
  creating := creating

end RaceState

/-- `ethread_key_create` up to the clearing of the key's bit.  No exit runs during the first time
    initialization, since no thread has a table before it. -/
def createKey (s : RaceState) (u : Thread) (destructor : Addr) (newIndex : Nat) :
    Option (RaceOut × RaceState) := do
  let tsd ← initKeys cfg s.tsd newIndex
  match tsd.threadKey.alloc with
  | none => return (.created (.int (some .EAGAIN)), s.set tsd none)
  | some (k, m) =>
    return (.none, s.set { tsd with threadKey := m } (some ⟨u, k, destructor, .install⟩))

/-- The next access of `ethread_key_create`: the destructor is installed first, and the `NULL`s are
    planted slot by slot. -/
def createNext (s : RaceState) (c : Creation) : Option (RaceOut × RaceState) :=
  match c.point with
  | .install =>
    some (.installed c.key c.destructor,
      s.set { s.tsd with keyDestructor := Function.update s.tsd.keyDestructor c.key c.destructor }
        (some { c with point := .plant 1 }))
  | .plant i =>
    if i < cfg.threadsMax then
      if s.tsd.threadTable i = 0 then
        some (.none, s.set s.tsd (some { c with point := .plant (i + 1) }))
      else do
        let tsd ← s.tsd.storeEntry cfg (s.tsd.threadTable i) c.key 0
        return (.none, s.set tsd (some { c with point := .plant (i + 1) }))
    else some (.created (.key c.key), s.set s.tsd none)

/-- One step, of the exiting thread, of a creation under way or of a thread that calls the layer,
    as far as the mutex lets it. -/
def stepRace (s : RaceState) : RaceEvent → Option (RaceOut × RaceState)
  | .exit (.call _ (.keyCreate ..)) => none
  | .exit e =>
    if s.creating.all (·.permits cfg t s.exit e) then
      (stepExit cfg t s.exit e).map fun r => (.exit r.1, { s with exit := r.2 })
    else none
  | .createKey u destructor newIndex =>
    if s.creating = none ∧ (s.tsd.pc u).mayCall ∧ (u = t → s.exit.point ≠ .returned) then
      createKey cfg s u destructor newIndex
    else none
  | .createNext => s.creating.bind (createNext cfg s)

/-- The exit of thread `t` among the calls of all threads, with the accesses of both
    `ethread_exit` and `ethread_key_create` as steps. -/
def raceSystem : LTS RaceState (RaceEvent × RaceOut) := .ofFun (.init cfg) (stepRace cfg t)

variable {cfg} {t} {s s' : RaceState} {u : Thread} {out : RaceOut} {d : Addr} {k n : Nat}

/-! ### A creation that is not interrupted -/

/-- Accesses of one `ethread_key_create`, one after the other, with no other step between them. -/
def Creates (cfg : EthreadConfig) (t : Thread) : RaceState → RaceState → Prop :=
  Relation.ReflTransGen fun s s' => ∃ out, stepRace cfg t s .createNext = some (out, s')

/-- The planting loop from slot `i` on, by induction on the slots that are left. -/
theorem creates_plant {c : Creation} {i j : Nat} {h' : Heap (Nat → Ptr)}
    (hc : s.creating = some c) (hpoint : c.point = .plant i) (hk : c.key < cfg.keysMax)
    (hij : i + j = cfg.threadsMax)
    (hplant : (List.range' i j).foldlM (fun h i =>
      if s.tsd.threadTable i = 0 then some h
      else do
        let d ← h.load (s.tsd.threadTable i)
        h.store (s.tsd.threadTable i) (Function.update d c.key 0)) s.tsd.heap = some h') :
    Creates cfg t s (s.set { s.tsd with heap := h' }
      (some { c with point := .plant cfg.threadsMax })) := by
  induction j generalizing s c i with
  | zero =>
    obtain rfl : s.tsd.heap = h' := by simpa using hplant
    obtain rfl : i = cfg.threadsMax := by omega
    have heq : s.set { s.tsd with heap := s.tsd.heap }
        (some { c with point := .plant cfg.threadsMax }) = s := by
      obtain ⟨e, cr⟩ := s
      obtain rfl : cr = some c := hc
      obtain ⟨u, k, d, p⟩ := c
      obtain rfl : p = .plant cfg.threadsMax := hpoint
      rfl
    rw [heq]
    exact .refl
  | succ j ih =>
    have hi : i < cfg.threadsMax := by omega
    rw [List.range'_succ, List.foldlM_cons] at hplant
    obtain ⟨h₁, hslot, hrest⟩ := Option.bind_eq_some_iff.mp hplant
    -- the memory after slot `i`
    have hstep : stepRace cfg t s .createNext = some (.none, s.set { s.tsd with heap := h₁ }
        (some { c with point := .plant (i + 1) })) := by
      simp only [stepRace, hc, Option.bind_some, createNext, hpoint, hi, if_true]
      by_cases htab : s.tsd.threadTable i = 0
      · rw [if_pos htab] at hslot ⊢
        obtain rfl := Option.some.inj hslot
        rfl
      · rw [if_neg htab] at hslot ⊢
        obtain ⟨dat, hd, hstore⟩ := Option.bind_eq_some_iff.mp hslot
        have hentry : s.tsd.storeEntry cfg (s.tsd.threadTable i) c.key 0
            = some { s.tsd with heap := h₁ } := by
          simp [TsdState.storeEntry, hk, hd, hstore]
        simp [hentry]
    refine .head ⟨_, hstep⟩ ?_
    exact ih (s := s.set { s.tsd with heap := h₁ } (some { c with point := .plant (i + 1) }))
      (c := { c with point := .plant (i + 1) }) rfl rfl hk (by omega) hrest

/-- **An uninterrupted creation.**  With no step of another thread between them, the accesses of
    `ethread_key_create` amount to `keyCreate`: it returns the same, and leaves the same memory. -/
theorem keyCreate_steps {o : TsdOut} {tsd' : TsdState} (hfree : s.creating = none)
    (hmay : (s.tsd.pc u).mayCall = true) (hlive : u = t → s.exit.point ≠ .returned)
    (hlen : s.tsd.threadKey.length = cfg.keysMax / 32)
    (hthreads : 0 < cfg.threadsMax)
    (hs : keyCreate cfg s.tsd d n = some (o, tsd')) :
    ∃ s₁ out, stepRace cfg t s (.createKey u d n) = some (out, s₁) ∧
      ((out = .created o.ret ∧ s₁ = s.set tsd' none) ∨
        ∃ s₂, Creates cfg t s₁ s₂ ∧
          stepRace cfg t s₂ .createNext = some (.created o.ret, s.set tsd' none)) := by
  obtain ⟨tsd, hinit, hs⟩ := Option.bind_eq_some_iff.mp hs
  have hstep : stepRace cfg t s (.createKey u d n) = createKey cfg s u d n :=
    if_pos ⟨hfree, hmay, hlive⟩
  rw [hstep]
  cases halloc : tsd.threadKey.alloc with
  | none =>
    simp only [halloc] at hs
    obtain ⟨rfl, rfl⟩ := Prod.mk.inj (Option.some.inj hs)
    refine ⟨s.set tsd none, _, by simp [createKey, hinit, halloc], Or.inl ⟨rfl, rfl⟩⟩
  | some km =>
    obtain ⟨k, m⟩ := km
    simp only [halloc] at hs
    obtain ⟨h', hplant, hs⟩ := Option.bind_eq_some_iff.mp hs
    obtain ⟨rfl, rfl⟩ := Prod.mk.inj (Option.some.inj hs)
    -- the key is one of the map, so its entry is inside every table
    have hk : k < cfg.keysMax := by
      have hlt := (FreeMap.alloc_spec halloc).1
      have hmap : tsd.threadKey.length = cfg.keysMax / 32 := by
        obtain ⟨i, -, rfl⟩ := initKeys_spec hinit
        simp only [TsdState.keyMap]
        split
        · simp [FreeMap.full]
        · exact hlen
      rw [hmap] at hlt
      exact Nat.lt_of_lt_of_le hlt (Nat.mul_div_le cfg.keysMax 32)
    let s₁ := s.set { tsd with threadKey := m } (some ⟨u, k, d, .install⟩)
    let s₂ := s.set { tsd with
      threadKey := m
      keyDestructor := Function.update tsd.keyDestructor k d } (some ⟨u, k, d, .plant 1⟩)
    have hinstall : stepRace cfg t s₁ .createNext = some (.installed k d, s₂) := rfl
    have hloop : Creates cfg t s₂ _ := creates_plant (s := s₂) (c := ⟨u, k, d, .plant 1⟩) rfl rfl hk
      (j := cfg.threadsMax - 1) (by omega) hplant
    refine ⟨s₁, .none, by simp [createKey, hinit, halloc, s₁], Or.inr ⟨_, .head ⟨_, hinstall⟩ hloop,
      ?_⟩⟩
    show (if cfg.threadsMax < cfg.threadsMax then _ else _) = _
    rw [if_neg (Nat.lt_irrefl _)]
    rfl

/-- One more step of a run, with the event and output that it adds. -/
theorem raceRun_step {as : List (RaceEvent × RaceOut)} {e : RaceEvent}
    (hrun : (raceSystem cfg t).Run as s) (hs : stepRace cfg t s e = some (out, s')) :
    ∃ bs, (raceSystem cfg t).Run bs s' := by
  have hstep : (raceSystem cfg t).step s (e, out) s' := hs
  exact ⟨_, .step hrun hstep⟩

/-- A creation under way goes on in a run, access by access, until it is where the steps lead. -/
theorem creates_run {as : List (RaceEvent × RaceOut)} (hrun : (raceSystem cfg t).Run as s)
    (hsteps : Creates cfg t s s') : ∃ bs, (raceSystem cfg t).Run bs s' := by
  induction hsteps with
  | refl => exact ⟨as, hrun⟩
  | tail hsteps hstep ih =>
    obtain ⟨bs, hbs⟩ := ih
    obtain ⟨out, hout⟩ := hstep
    exact raceRun_step hbs hout

/-- The map keeps its length, so that no key is found behind it. -/
theorem ExitStep.length {s s' : ExitState} {e : ExitEvent} {o : ExitOut}
    (hs : ExitStep cfg t s e o s') (hlen : s.tsd.threadKey.length = cfg.keysMax / 32) :
    s'.tsd.threadKey.length = cfg.keysMax / 32 := by
  cases hs with
  | call hcall hlive hs => exact (stepTsd_keys hs).length hlen
  | clear hpoint hstore =>
    obtain ⟨h', d, rfl, -⟩ := storeEntry_spec hstore
    exact hlen
  | release hpoint hs =>
    unfold releaseTable at hs
    dsimp only at hs
    split at hs
    · obtain ⟨rfl, rfl⟩ := Prod.mk.inj (Option.some.inj hs)
      exact hlen
    · obtain ⟨h', -, hs⟩ := Option.bind_eq_some_iff.mp hs
      obtain ⟨rfl, rfl⟩ := Prod.mk.inj (Option.some.inj hs)
      exact hlen
  | _ => exact hlen

/-- A whole call of `ethread_key_create` in a run: what it does in one step elsewhere its accesses
    do here. -/
theorem keyCreate_run {bs : List (RaceEvent × RaceOut)} {s : ExitState} {o : TsdOut}
    {tsd : TsdState} (hthreads : 0 < cfg.threadsMax) (hbs : (raceSystem cfg t).Run bs ⟨s, none⟩)
    (hlen : s.tsd.threadKey.length = cfg.keysMax / 32) (hlive : u = t → s.point ≠ .returned)
    (hs : stepTsd cfg s.tsd (u, .keyCreate d n) = some (o, tsd)) :
    ∃ bs, (raceSystem cfg t).Run bs ⟨{ s with tsd := tsd }, none⟩ := by
  unfold stepTsd at hs
  dsimp only at hs
  split at hs
  · rename_i hmay
    obtain ⟨s₁, out, hstart, ⟨rfl, rfl⟩ | ⟨s₂, hsteps, hlast⟩⟩ :=
      keyCreate_steps (s := ⟨s, none⟩) (t := t) rfl hmay hlive hlen hthreads hs
    · exact raceRun_step hbs hstart
    · obtain ⟨bs₁, hbs₁⟩ := raceRun_step hbs hstart
      obtain ⟨bs₂, hbs₂⟩ := creates_run hbs₁ hsteps
      exact raceRun_step hbs₂ hlast
  · cases hs

/-- **Whole calls.**  The states that are reached with `keyCreate` as one step are reached with
    its accesses as steps, too. -/
theorem exitRun_races {as : List (ExitEvent × ExitOut)} {s : ExitState}
    (hthreads : 0 < cfg.threadsMax) (h : (exitSystem cfg t).Run as s) :
    ∃ bs, (raceSystem cfg t).Run bs ⟨s, none⟩ := by
  have hall : s.tsd.threadKey.length = cfg.keysMax / 32 ∧
      ∃ bs, (raceSystem cfg t).Run bs ⟨s, none⟩ := by
    refine h.invariant (I := fun s => s.tsd.threadKey.length = cfg.keysMax / 32 ∧
      ∃ bs, (raceSystem cfg t).Run bs ⟨s, none⟩) ?_ ?_
    · rintro s rfl
      refine ⟨by simp [ExitState.init, TsdState.init], [], .init rfl⟩
    · rintro s ⟨e, o⟩ s' ⟨hlen, bs, hbs⟩ hs
      refine ⟨(stepExit_cases hs).length hlen, ?_⟩
      -- what is not a step of `ethread_key_create` is one step of the exit here, too
      have hother : stepRace cfg t ⟨s, none⟩ (.exit e)
          = (stepExit cfg t s e).map (fun r => (.exit r.1, ⟨r.2, none⟩)) →
          ∃ bs, (raceSystem cfg t).Run bs ⟨s', none⟩ := by
        intro hstep
        have hs' : stepExit cfg t s e = some (o, s') := hs
        rw [hs'] at hstep
        exact raceRun_step hbs hstep
      cases e with
      | call u e =>
        cases e with
        | keyCreate d n =>
          cases stepExit_cases hs with
          | call hcall hlive hcreate => exact keyCreate_run hthreads hbs hlen hlive hcreate
        | _ => exact hother rfl
      | _ => exact hother rfl
  exact hall.2

/-! ### The steps -/

/-- What the steps do, with the destructor that is installed and the tables that are planted named
    in the cases. -/
inductive RaceStep (cfg : EthreadConfig) (t : Thread) (s : RaceState) :
    RaceEvent → RaceOut → RaceState → Prop
  | exit {e o exit} (hcall : ∀ u d n, e ≠ .call u (.keyCreate d n))
      (hpermit : ∀ c, s.creating = some c → c.permits cfg t s.exit e = true)
      (hs : ExitStep cfg t s.exit e o exit) :
      RaceStep cfg t s (.exit e) (.exit o) { s with exit := exit }
  | full {u d n i} (hfree : s.creating = none) :
      RaceStep cfg t s (.createKey u d n) (.created (.int (some .EAGAIN)))
        (s.set { s.tsd with dataIndex := i, threadKey := s.tsd.keyMap cfg } none)
  | found {u d n i k m} (hfree : s.creating = none)
      (halloc : (s.tsd.keyMap cfg).alloc = some (k, m)) :
      RaceStep cfg t s (.createKey u d n) .none
        (s.set { s.tsd with dataIndex := i, threadKey := m } (some ⟨u, k, d, .install⟩))
  | install {c} (hc : s.creating = some c) (hpoint : c.point = .install) :
      RaceStep cfg t s .createNext (.installed c.key c.destructor)
        (s.set { s.tsd with
          keyDestructor := Function.update s.tsd.keyDestructor c.key c.destructor }
          (some { c with point := .plant 1 }))
  | skip {c i} (hc : s.creating = some c) (hpoint : c.point = .plant i) (hi : i < cfg.threadsMax)
      (htab : s.tsd.threadTable i = 0) :
      RaceStep cfg t s .createNext .none
        (s.set s.tsd (some { c with point := .plant (i + 1) }))
  | plant {c i tsd} (hc : s.creating = some c) (hpoint : c.point = .plant i)
      (hi : i < cfg.threadsMax) (htab : s.tsd.threadTable i ≠ 0)
      (hstore : s.tsd.storeEntry cfg (s.tsd.threadTable i) c.key 0 = some tsd) :
      RaceStep cfg t s .createNext .none (s.set tsd (some { c with point := .plant (i + 1) }))
  | done {c i} (hc : s.creating = some c) (hpoint : c.point = .plant i)
      (hi : cfg.threadsMax ≤ i) :
      RaceStep cfg t s .createNext (.created (.key c.key)) (s.set s.tsd none)

/-- The exits of the search for a key: none is free, or one is taken and the creation is under
    way. -/
theorem createKey_cases (hfree : s.creating = none)
    (hs : createKey cfg s u d n = some (out, s')) : RaceStep cfg t s (.createKey u d n) out s' := by
  obtain ⟨tsd, hinit, hs⟩ := Option.bind_eq_some_iff.mp hs
  obtain ⟨i, hi, rfl⟩ := initKeys_spec hinit
  cases halloc : (s.tsd.keyMap cfg).alloc with
  | none =>
    simp only [halloc] at hs
    obtain ⟨rfl, rfl⟩ := Prod.mk.inj (Option.some.inj hs)
    exact .full hfree
  | some km =>
    obtain ⟨k, m⟩ := km
    simp only [halloc] at hs
    obtain ⟨rfl, rfl⟩ := Prod.mk.inj (Option.some.inj hs)
    exact .found hfree halloc

/-- The exits of the accesses of a creation: installed, planted in a slot, or returned. -/
theorem createNext_cases {c : Creation} (hc : s.creating = some c)
    (hs : createNext cfg s c = some (out, s')) : RaceStep cfg t s .createNext out s' := by
  unfold createNext at hs
  split at hs
  · rename_i hpoint
    obtain ⟨rfl, rfl⟩ := Prod.mk.inj (Option.some.inj hs)
    exact .install hc hpoint
  · rename_i i hpoint
    split at hs
    · rename_i hi
      split at hs
      · rename_i htab
        obtain ⟨rfl, rfl⟩ := Prod.mk.inj (Option.some.inj hs)
        exact .skip hc hpoint hi htab
      · rename_i htab
        obtain ⟨tsd, hstore, hs⟩ := Option.bind_eq_some_iff.mp hs
        obtain ⟨rfl, rfl⟩ := Prod.mk.inj (Option.some.inj hs)
        exact .plant hc hpoint hi htab hstore
    · rename_i hi
      obtain ⟨rfl, rfl⟩ := Prod.mk.inj (Option.some.inj hs)
      exact .done hc hpoint (Nat.le_of_not_lt hi)

/-- **One step.**  Every step has one of the exits of `RaceStep`; the invariants are proved from
    these. -/
theorem stepRace_cases {e : RaceEvent} (hs : stepRace cfg t s e = some (out, s')) :
    RaceStep cfg t s e out s' := by
  cases e with
  | createKey u d n =>
    unfold stepRace at hs
    dsimp only at hs
    split at hs
    · rename_i hcond
      exact createKey_cases hcond.1 hs
    · cases hs
  | createNext =>
    obtain ⟨c, hc, hs⟩ := Option.bind_eq_some_iff.mp hs
    exact createNext_cases hc hs
  | exit e =>
    -- `ethread_key_create` itself is split into its steps, and not one of these
    have hcall : ∀ u d n, e ≠ .call u (.keyCreate d n) := by
      rintro u d n rfl
      cases hs
    have hstep : stepRace cfg t s (.exit e)
        = if s.creating.all (·.permits cfg t s.exit e) then
            (stepExit cfg t s.exit e).map fun r => (.exit r.1, { s with exit := r.2 })
          else none := by
      cases e with
      | call u e =>
        cases e with
        | keyCreate d n => exact absurd rfl (hcall u d n)
        | _ => rfl
      | _ => rfl
    rw [hstep] at hs
    split at hs
    · rename_i hpermit
      obtain ⟨⟨o, exit⟩, hexit, hs⟩ := Option.map_eq_some_iff.mp hs
      obtain ⟨rfl, rfl⟩ := Prod.mk.inj hs
      refine .exit hcall (fun c hc => ?_) (stepExit_cases hexit)
      rw [hc] at hpermit
      exact hpermit
    · cases hs

/-! ### The tables -/

/-- The steps of `ethread_key_create` leave the threads and their tables where they are, so the
    exit's invariant stays. -/
theorem ExitInv.set {s : RaceState} {tsd : TsdState} {c : Option Creation}
    (h : ExitInv cfg t s.exit) (hsame : SameTables s.tsd tsd) (hpc : tsd.pc = s.tsd.pc) :
    ExitInv cfg t (s.set tsd c).exit := by
  refine ⟨h.own.of_same hsame fun u f hf => ?_, ?_, fun u hu => ⟨?_, ?_⟩, fun hout => ?_, h.key,
    h.past⟩
  · have hf' : (tsd.pc u).frame? = some f := hf
    rw [hpc] at hf'
    exact h.own.frame u f hf'
  · exact (congrFun hpc t).trans h.pc
  · exact (congrFun hpc u).trans (h.others u hu).1
  · exact (congrFun hsame.released u).trans (h.others u hu).2
  · exact (congrFun hsame.released t).trans (h.mine hout)

/-- **Step lemma.** -/
theorem RaceStep.exitInv (h : ExitInv cfg t s.exit) {e : RaceEvent}
    (hs : RaceStep cfg t s e out s') : ExitInv cfg t s'.exit := by
  cases hs with
  | exit hcall hpermit hs => exact h.step hs
  | plant hc hpoint hi htab hstore =>
    obtain ⟨h', dat, rfl, hl, -⟩ := storeEntry_spec hstore
    exact h.set (sameTables_heap hl) rfl
  | _ => exact h.set ⟨rfl, rfl, rfl, rfl, rfl, rfl, rfl⟩ rfl

end Ecos.Ethread
