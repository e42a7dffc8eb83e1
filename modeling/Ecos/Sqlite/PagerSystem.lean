import Ecos.Lib.Run
import Ecos.Sqlite.PagerCommit

namespace Ecos.Sqlite.Rollback

open Ecos.Lib Program

/-!
# The pager is a store of transactions

* `PagerCall`, `pagerSystem` — the calls of the layer above, which go on from one call of the
  operating system to the next; the process may be killed in front of any of them, and the power may
  fail;
* `Orderly` — what the layer above has to mind;
* `txStore` — the store that the pager is to be: an image that is committed, one that the
  transaction works on, and those that a power failure may bring back;
* `Rest.call` — every call does what the store does; `Returning` — what the deleted journals are
  good for; `pagerRefinement` — so does every run.
-/

variable (C : PagerConfig)

/-! ### The system -/

/-- What the layer above calls, one call at a time. -/
inductive PagerCall
  /-- `sqlite3PagerAcquire` -/
  | get (pgno : Nat)
  /-- `sqlite3PagerBegin` -/
  | begin (exFlag : Bool)
  /-- `sqlite3PagerWrite` for a page in the cache -/
  | write (pgno : Nat)
  /-- `sqlite3PagerCommitPhaseOne` -/
  | commitPhaseOne
  /-- `sqlite3PagerCommitPhaseTwo` -/
  | commitPhaseTwo
  /-- `sqlite3PagerRollback` -/
  | rollback
  /-- `pagerUnlockAndRollback`, when the last page is given back -/
  | unlock
  deriving DecidableEq, Repr

/-- The code of a call, which runs until it returns or is cut off. -/
def PagerCall.program (P : Pager) : PagerCall → PagerProgram (PagerRc × Pager)
  | .get pgno => sqlite3PagerAcquire C P pgno
  | .begin exFlag => sqlite3PagerBegin C P exFlag
  | .write pgno =>
    match P.lookup pgno with
    | some pg => pagerWrite C P pg
    | none => return (.ERROR, P)
  | .commitPhaseOne => sqlite3PagerCommitPhaseOne C P
  | .commitPhaseTwo => sqlite3PagerCommitPhaseTwo P
  | .rollback => sqlite3PagerRollback C P
  | .unlock => do
    let P ← pagerUnlockAndRollback C P
    return (.OK, P)

/-- The disk, and the process: its pager, or what is left of the call that is running. -/
structure PagerWorld where
  disk : Disk
  pager : Pager
  running : Option (PagerCall × PagerProgram (PagerRc × Pager))

/-- What may happen: a call, a step of the one under way, or the end of the process or of the
    power. -/
inductive PagerLabel
  | call (a : PagerCall)
  /-- The next call of the operating system, with what the environment answers. -/
  | os (e : PagerEnv)
  | ret (rc : PagerRc)
  /-- The layer above finds `d` in a page, or puts it there. -/
  | look (pgno : Nat) (d : List UInt8)
  | modify (pgno : Nat) (d : List UInt8)
  /-- It counts the pages, or cuts the database off. -/
  | count (n : Nat)
  | truncateImage (n : Nat)
  /-- The cache drops a clean page. -/
  | drop (pgno : Nat)
  | kill
  | powerFailure (D : Disk)

/-- A step of the process, or of what happens to it; between two steps everything can end. -/
def pagerStep (s : PagerWorld) : PagerLabel → Option PagerWorld
  | .call a =>
    match s.running with
    | none => some { s with running := some (a, a.program C s.pager) }
    | some _ => none
  | .os e =>
    match s.running with
    | some (a, .call c k) =>
      let r := pagerMachine.perform s.disk e c
      some { s with disk := r.2, running := some (a, k r.1) }
    | _ => none
  | .ret rc =>
    match s.running with
    | some (_, .pure (rc', P)) => if rc = rc' then some ⟨s.disk, P, none⟩ else none
    | _ => none
  | .look pgno d =>
    match s.running, s.pager.lookup pgno with
    | none, some pg => if d = pg.data then some s else none
    | _, _ => none
  | .modify pgno d =>
    match s.running with
    | none => some { s with pager := s.pager.mapPage pgno fun pg => { pg with data := d } }
    | some _ => none
  | .count n =>
    if s.running.isNone = true ∧ s.pager.dbSizeValid = true ∧ n = s.pager.dbSize then some s
    else none
  | .truncateImage n =>
    match s.running with
    | none => some { s with pager := sqlite3PagerTruncateImage s.pager n }
    | some _ => none
  | .drop pgno =>
    match s.running, s.pager.lookup pgno with
    | none, some pg => if pg.dirty then none else some { s with pager := s.pager.drop pgno }
    | _, _ => none
  | .kill => some ⟨s.disk, .init, none⟩
  | .powerFailure D => some ⟨D, .init, none⟩

/-- The disk `D`, and a process that has just opened the database. -/
def pagerSystem (D : Disk) : LTS PagerWorld PagerLabel where
  init s := s = ⟨D, .init, none⟩
  step s l s' := pagerStep C s l = some s' ∧ match l with
    | .powerFailure D => PowerFailure C s.disk D
    | _ => True

/-! ### What the layer above has to mind -/

/-- What `sqlite3PagerPagecount` returns, from the pager or from the file. -/
def PagerWorld.pagecount (s : PagerWorld) : Nat :=
  if s.pager.dbSizeValid then s.pager.dbSize else filePages C s.disk.db.cur.size

/-- What the layer above minds, and what may not happen.

    * A page is written, and then changed, in a transaction and before the first phase of its
      commit; it is one of the database or the next one behind it, and keeps its length.  A page
      that the transaction has cut off is only fetched again if it is in the journal.
    * The database is cut off behind one of its pages, not the one with the lock bytes, by a
      transaction that has changed it, and before the first phase of its commit.
    * Before the second phase of a commit the first one has done its work, if anything was changed.
    * The end of a journal is not taken for the name of a master journal.
    * The power does not fail while the database file is `exposed`: a rollback has changed it, and
      the journal was deleted then, or one was deleted before and this may be undone; and the file
      has not been synced since. -/
def Orderly (s : PagerWorld) : PagerLabel → Prop
  | .call (.get pgno) =>
    NoMasterJournal s.disk ∧ (s.pager.jfdOpen = true → InTxn.Readable s.pager pgno)
  | .call (.write pgno) =>
    (s.pager.lookup pgno).isSome = true ∧ PagerState.RESERVED.num ≤ s.pager.state.num ∧
      s.pager.changeCountDone = false ∧ NextPage C (s.pagecount C) pgno
  | .call .commitPhaseTwo => s.pager.dbModified = true → s.pager.state = .SYNCED
  | .call .rollback | .call .unlock => NoMasterJournal s.disk
  | .modify pgno d => (s.pager.lookup pgno).any (·.dirty) = true ∧ d.length = C.pageSize
  | .truncateImage n =>
    s.pager.dbModified = true ∧ s.pager.changeCountDone = false ∧ 1 ≤ n ∧ n ≤ s.pager.dbSize ∧
      n ≠ C.mjPgno
  | .powerFailure _ => s.disk.exposed = false
  | _ => True

instance : (D : Disk) → Decidable (NoMasterJournal D)
  | ⟨_, none, _, _⟩ => .isTrue fun _ hJ => nomatch hJ
  | ⟨_, some J, _, _⟩ =>
    have : Decidable (NoMaster J.cur) := inferInstanceAs (Decidable (_ ≠ _))
    decidable_of_iff (NoMaster J.cur)
      ⟨fun hno _ hJ => Option.some.inj hJ ▸ hno, fun hno => hno J rfl⟩

instance (P : Pager) (p : Nat) : Decidable (InTxn.Readable P p) :=
  inferInstanceAs (Decidable (_ ∨ _))

instance (n p : Nat) : Decidable (NextPage C n p) :=
  decidable_of_iff (∀ q, q < p → n < q → q = C.mjPgno)
    ⟨fun h q hq hp => h q hp hq, fun h q hp hq => h q hq hp⟩

instance (s : PagerWorld) : (l : PagerLabel) → Decidable (Orderly C s l)
  | .call (.get _) => inferInstanceAs (Decidable (_ ∧ _))
  | .call (.write _) => inferInstanceAs (Decidable (_ ∧ _))
  | .call .commitPhaseTwo => inferInstanceAs (Decidable (_ → _))
  | .call .rollback | .call .unlock => inferInstanceAs (Decidable (NoMasterJournal _))
  | .call (.begin _) | .call .commitPhaseOne => inferInstanceAs (Decidable True)
  | .modify .. => inferInstanceAs (Decidable (_ ∧ _))
  | .truncateImage _ => inferInstanceAs (Decidable (_ ∧ _))
  | .powerFailure _ => inferInstanceAs (Decidable (_ = _))
  | .os _ | .ret _ | .look .. | .count _ | .drop _ | .kill => inferInstanceAs (Decidable True)

/-! ### The store -/

/-- A store of transactions: what the pager is for, without files and locks. -/
structure TxStore where
  /-- The database at the last commit. -/
  committed : Image
  /-- What the transaction has made of it. -/
  working : Image
  /-- What was committed when something was done that is not on the disk for good, and that a
      power failure may go back to; the last one first. -/
  previous : List Image
  pending : Option PagerCall

/-- A call returns `rc`, and the transaction goes on with `W'`. -/
def Returns (B W : Image) : PagerCall → PagerRc → Image → Prop
  | .get pgno, rc, W' => AcquireRc C W.n pgno rc ∧ W' = W
  | .begin _, rc, W' => (rc = .OK ∨ rc = .BUSY) ∧ W' = W
  | .write pgno, rc, W' => rc = .OK ∧ ∃ d, W' = W.write pgno d
  | .commitPhaseOne, rc, W' => (rc = .OK ∨ rc = .BUSY) ∧ W.Counted W'
  | .commitPhaseTwo, rc, W' => (rc = .OK ∨ rc = .ERROR) ∧ B = W ∧ W' = W
  | .rollback, rc, W' | .unlock, rc, W' => rc = .OK ∧ W' = B

/-- A step of the store.  A commit is done at once, while the second phase is running; whether a
    power failure may go back behind it is another matter. -/
def TxStep (t : TxStore) (l : PagerLabel) (t' : TxStore) : Prop :=
  match l with
  | .call a => t.pending = none ∧ t' = { t with pending := some a }
  | .os _ => ∃ B' Bs', t' = { t with committed := B', previous := Bs' } ∧
      (B' = t.committed ∨ t.pending = some .commitPhaseTwo ∧ B' = t.working) ∧
      (Bs' = t.previous ∨ Bs' = t.committed :: t.previous ∨ Bs' = [])
  | .ret rc => ∃ a W', t.pending = some a ∧ Returns C t.committed t.working a rc W' ∧
      t' = { t with working := W', pending := none }
  | .look pgno d => t' = t ∧ (t.working.Used C pgno → d = t.working.page pgno)
  | .modify pgno d => t' = { t with working := t.working.set pgno d }
  | .count n => t' = t ∧ n = t.working.n
  | .truncateImage n => t' = { t with working := { t.working with n } }
  | .drop _ => t' = t
  | .kill => t' = ⟨t.committed, t.committed, t.previous, none⟩
  | .powerFailure _ => ∃ B ∈ t.committed :: t.previous, t' = ⟨B, B, [], none⟩

/-- The store, with the image `B` for good, and nothing under way. -/
def txStore (B : Image) : LTS TxStore PagerLabel where
  init t := t = ⟨B, B, [], none⟩
  step := TxStep C

/-! ### The pager is the store -/

variable {C} {B W : Image} {D : Disk} {P : Pager} {s s' : PagerWorld} {t : TxStore} {p : Nat}

/-- A pager between two calls, outside of a transaction or in one. -/
def Rest (C : PagerConfig) (B W : Image) (D : Disk) (P : Pager) : Prop :=
  W = B ∧ Outside C B D P ∨ Working C B W D P

/-- How a call ends that began with `W`: with what it returned, and the pager at rest. -/
def Done (C : PagerConfig) (a : PagerCall) (W : Image) (x : PagerRc × Pager) (D : Disk)
    (B : Image) : Prop :=
  B.Valid C ∧ ∃ W', W'.Valid C ∧ Returns C B W a x.1 W' ∧ Rest C B W' D x.2

/-- What a call may do to the database: nothing, or to commit what was worked on. -/
def Moves (a : PagerCall) (W g g' : Image) : Prop := g' = g ∨ a = .commitPhaseTwo ∧ g' = W

/-- A pager that was just opened is idle, whatever the disk holds that can be recovered. -/
theorem Idle.init (h : Recoverable C B D) : Idle C B D .init where
  quiet := ⟨List.nodup_nil, fun _ hpg => absurd hpg List.not_mem_nil,
    fun _ hpg => absurd hpg List.not_mem_nil, fun _ _ _ hpg => (by cases hpg), rfl⟩
  state := rfl
  dbSizeValid := rfl
  recoverable := h

/-- Between two calls the committed image can be recovered. -/
theorem Rest.recoverable (h : Rest C B W D P) : Recoverable C B D := by
  rcases h with ⟨-, h⟩ | h
  · exact h.recoverable
  · exact h.recoverable

/-- The pages are those that the transaction works on, as far as they belong to the database. -/
theorem Rest.lookup (h : Rest C B W D P) {pg : PgHdr} (hlookup : P.lookup p = some pg)
    (hp : W.Used C p) : pg.data = W.page p := by
  rcases h with ⟨rfl, h⟩ | h
  · exact h.quiet.cached p pg hp hlookup
  · obtain ⟨isOpen, ⟨J, sealed, tail, -, htxn⟩, -⟩ := h.txn
    exact (htxn.caching.page p pg hlookup).current hp

/-- The number of pages is the one that the transaction works on. -/
theorem Rest.dbSize (h : Rest C B W D P) (hvalid : P.dbSizeValid = true) : P.dbSize = W.n := by
  rcases h with ⟨rfl, h | h⟩ | h
  · rw [h.dbSizeValid] at hvalid
    cases hvalid
  · exact (h.size hvalid).1
  · exact h.size

/-- A call that leaves the database as it is. -/
theorem Done.same {a : PagerCall} {x : PagerRc × Pager} (hB : B.Valid C) (hW : W.Valid C)
    (hret : Returns C B W a x.1 W) (hrest : Rest C B W D x.2) : Done C a W x D B :=
  ⟨hB, W, hW, hret, hrest⟩

section

variable (hB : B.Valid C) (hW : W.Valid C) (h : Rest C B W D P)
include hB hW h

/-- `sqlite3PagerAcquire` keeps the transaction safe, when the page can be read at all. -/
theorem Rest.get {p : Nat} (hno : NoMasterJournal D)
    (hp : P.jfdOpen = true → InTxn.Readable P p) :
    PagerSafe C (Moves (.get p) W) (sqlite3PagerAcquire C P p) (Done C (.get p) W) D B := by
  rcases h with ⟨rfl, h⟩ | h
  · -- the first page that is fetched takes the lock, and rolls back what is left of others
    refine (h.acquire (.inl rfl) hB hno p).imp ?_
    rintro x D' B ⟨rfl, hrc, hout⟩
    exact .same hB hW ⟨hrc, rfl⟩ (.inl ⟨rfl, hout⟩)
  · obtain ⟨isOpen, ⟨J, sealed, tail, -, htxn⟩, -⟩ := h.txn
    refine (h.acquire (.inl rfl) hB (hp htxn.jfdOpen)).imp ?_
    rintro x D' B ⟨rfl, hrc, hworking⟩
    exact .same hB hW ⟨hrc, rfl⟩ (.inr hworking)

/-- `sqlite3PagerBegin` keeps it safe: whatever a crash leaves, the committed image is
    recoverable. -/
theorem Rest.begin (exFlag : Bool) :
    PagerSafe C (Moves (.begin exFlag) W) (sqlite3PagerBegin C P exFlag) (Done C (.begin exFlag) W)
      D B := by
  rcases h with ⟨rfl, h | h⟩ | h
  · -- no lock, for which the source has an assertion: nothing is done
    rw [begin_eq (by rw [h.state]; rintro ⟨⟩) (fun hopen => by
      rw [h.quiet.jfdOpen] at hopen
      cases hopen)]
    exact .same hB hW ⟨.inl rfl, rfl⟩ (.inl ⟨rfl, .inl h⟩)
  · refine (h.begin (.inl rfl) hB exFlag).imp ?_
    rintro x D' B ⟨rfl, hrc, hreading | hworking⟩
    · exact .same hB hW ⟨hrc, rfl⟩ (.inl ⟨rfl, .inr hreading⟩)
    · exact .same hB hW ⟨hrc, rfl⟩ (.inr hworking)
  · rw [h.begin]
    exact .same hB hW ⟨.inl rfl, rfl⟩ (.inr h)

/-- `pagerWrite` of a cached page keeps it safe, when the page is one of the file or the next
    one. -/
theorem Rest.write {p n : Nat} (hlookup : (P.lookup p).isSome = true)
    (hres : PagerState.RESERVED.num ≤ P.state.num) (hcount : P.changeCountDone = false)
    (hn : n = if P.dbSizeValid then P.dbSize else filePages C D.db.cur.size)
    (hgap : NextPage C n p) :
    PagerSafe C (Moves (.write p) W) ((PagerCall.write p).program C P) (Done C (.write p) W)
      D B := by
  obtain ⟨pg, hlookup⟩ := Option.isSome_iff_exists.mp hlookup
  have hprogram : (PagerCall.write p).program C P = pagerWrite C P pg := by
    simp only [PagerCall.program, hlookup]
  rw [hprogram]
  have hdone : ∀ x D', x.1 = .OK → Working C B (W.write p pg.data) D' x.2 →
      Done C (.write p) W x D' B := fun x D' hrc hworking =>
    ⟨hB, _, hworking.valid, ⟨hrc, pg.data, rfl⟩, .inr hworking⟩
  rcases h with ⟨rfl, h | h⟩ | h
  · rw [h.state] at hres
    exact absurd hres (by decide)
  · -- the first write opens the journal
    have hpages : n = W.n := by
      rw [hn]
      split
      · next hvalid => exact (h.size hvalid).1
      · rw [h.intact.size, filePages_mul]
    refine (h.write (.inl rfl) hB hres hlookup (hpages ▸ hgap)).imp ?_
    rintro x D' B ⟨rfl, hrc, hworking⟩
    exact hdone x D' hrc hworking
  · obtain ⟨isOpen, ⟨J, sealed, tail, -, htxn⟩, -⟩ := h.txn
    rw [htxn.sizeValid, if_pos rfl, h.size] at hn
    refine (h.pagerWrite (.inl rfl) hB hcount hlookup (hn ▸ hgap)).imp ?_
    rintro x D' B ⟨rfl, hrc, hworking⟩
    exact hdone x D' hrc hworking

/-- The first phase of the commit keeps it safe. -/
theorem Rest.commitPhaseOne :
    PagerSafe C (Moves .commitPhaseOne W) (sqlite3PagerCommitPhaseOne C P)
      (Done C .commitPhaseOne W) D B := by
  rcases h with ⟨rfl, h⟩ | h
  · unfold sqlite3PagerCommitPhaseOne
    rw [if_pos (.inr h.quiet.dbModified)]
    exact .same hB hW ⟨.inl rfl, .inl rfl⟩ (.inl ⟨rfl, h⟩)
  · refine (h.commitPhaseOne (.inl rfl) hB).imp ?_
    rintro x D' B ⟨rfl, hrc, W', hcounted, hworking⟩
    exact ⟨hB, W', hworking.valid, ⟨hrc.imp_left And.left, hcounted⟩, .inr hworking⟩

/-- The second phase of the commit keeps it safe, when the first one was run. -/
theorem Rest.commitPhaseTwo (hdone : P.dbModified = true → P.state = .SYNCED) :
    PagerSafe C (Moves .commitPhaseTwo W) (sqlite3PagerCommitPhaseTwo P)
      (Done C .commitPhaseTwo W) D B := by
  rcases h with ⟨rfl, h⟩ | h
  · unfold sqlite3PagerCommitPhaseTwo
    split
    · exact .same hB hW ⟨.inr rfl, rfl, rfl⟩ (.inl ⟨rfl, h⟩)
    · next hres =>
      rcases h with h | h
      · rw [h.state] at hres
        exact absurd (show PagerState.UNLOCK.num < PagerState.RESERVED.num by decide) hres
      · refine .bind ((h.endTransaction (.inl rfl)).imp ?_)
        rintro P' D B ⟨rfl, rfl, hreading⟩
        exact .same hB hW ⟨.inl rfl, rfl, rfl⟩ (.inl ⟨rfl, .inr hreading⟩)
  · -- the deletion of the journal moves the committed image
    refine (h.commitPhaseTwo (.inr ⟨rfl, rfl⟩) (.inl rfl) hdone).imp ?_
    rintro x D' B' ⟨rfl, hrc, -, hreading⟩
    exact .same hW hW ⟨.inl hrc, rfl, rfl⟩ (.inl ⟨rfl, .inr hreading⟩)

/-- `sqlite3PagerRollback` keeps it safe, and goes back to the committed image. -/
theorem Rest.rollback (hno : NoMasterJournal D) :
    PagerSafe C (Moves .rollback W) (sqlite3PagerRollback C P) (Done C .rollback W) D B := by
  rcases h with ⟨rfl, h⟩ | h
  · refine (h.rollback (.inl rfl)).imp ?_
    rintro x D' B ⟨rfl, hrc, hout⟩
    exact .same hB hW ⟨hrc, rfl⟩ (.inl ⟨rfl, hout⟩)
  · refine (h.rollback (.inl rfl) hB hno).imp ?_
    rintro x D' B ⟨rfl, hrc, hreading⟩
    exact ⟨hB, B, hB, ⟨hrc, rfl⟩, .inl ⟨rfl, .inr hreading⟩⟩

omit hW in
/-- Giving the locks back keeps it safe, after a rollback if there is a transaction. -/
theorem Rest.unlock (hno : NoMasterJournal D) :
    PagerSafe C (Moves .unlock W) (PagerCall.unlock.program C P) (Done C .unlock W) D B := by
  unfold PagerCall.program
  have hrest : Outside C B D P ∨ Working C B W D P := h.imp_left And.right
  refine .bind ((safe_unlockAndRollback (.inl rfl) hB hrest hno).imp ?_)
  rintro P' D' B ⟨rfl, hidle⟩
  exact ⟨hB, B, hB, ⟨rfl, rfl⟩, .inl ⟨rfl, .inl hidle⟩⟩

end

/-- **Every call** does what the store does, with what it returns. -/
theorem Rest.call (hB : B.Valid C) (hW : W.Valid C) {a : PagerCall}
    (h : Rest C B W s.disk s.pager) (ho : Orderly C s (.call a)) :
    PagerSafe C (Moves a W) (a.program C s.pager) (Done C a W) s.disk B := by
  cases a with
  | get pgno => exact h.get hB hW ho.1 ho.2
  | begin exFlag => exact h.begin hB hW exFlag
  | write pgno =>
    obtain ⟨hlookup, hres, hcount, hgap⟩ := ho
    exact h.write hB hW hlookup hres hcount rfl hgap
  | commitPhaseOne => exact h.commitPhaseOne hB hW
  | commitPhaseTwo => exact h.commitPhaseTwo hB hW ho
  | rollback => exact h.rollback hB hW ho
  | unlock => exact h.unlock hB ho

/-! ### Deleted journals -/

/-- With each of the deleted journals, the file as it is now would be the image `Bs` has for it, or
    be brought back to that. -/
def Returning (C : PagerConfig) (D : Disk) (Bs : List Image) : Prop :=
  List.Forall₂ (fun J B => B.Valid C ∧
    (D.exposed = false → Recoverable C B { D with journal := some J })) D.deleted Bs

namespace Returning

variable {Bs : List Image} {D' : Disk}

/-- Without deleted journals nothing comes back, and the committed image is the only one. -/
theorem nil (hnil : D.deleted = []) : Returning C D [] := by
  unfold Returning
  rw [hnil]
  exact .nil

/-- No image comes back without a journal that does. -/
theorem eq_nil (h : Returning C D Bs) (hnil : D.deleted = []) : Bs = [] := by
  unfold Returning at h
  rw [hnil] at h
  exact List.forall₂_nil_left_iff.mp h

/-- Unless the database file is exposed now, it is what it was. -/
theorem congr (h : Returning C D Bs) (hdeleted : D'.deleted = D.deleted)
    (hdb : D'.exposed = false → D.deleted = [] ∨ D'.db = D.db ∧ D.exposed = false) :
    Returning C D' Bs := by
  by_cases hnil : D.deleted = []
  · obtain rfl := h.eq_nil hnil
    exact .nil (hdeleted.trans hnil)
  · unfold Returning at h ⊢
    rw [hdeleted]
    refine h.imp fun J B hJ => ⟨hJ.1, fun hexp' => ?_⟩
    obtain ⟨hsame, hexp⟩ := (hdb hexp').resolve_left hnil
    exact (hJ.2 hexp).congr rfl hsame (hexp'.trans hexp.symm)

/-- An update of a file makes no journal come back that did not before. -/
theorem update (h : Returning C D Bs) (f : FileId) (c : Content UInt8) :
    Returning C (D.update f c) Bs := by
  cases f with
  | journal => exact h.congr rfl fun hexp => .inr ⟨rfl, hexp⟩
  | db =>
    -- if there are deleted journals, the file is exposed from now on
    refine h.congr rfl fun hexp => .inl ?_
    have hempty : D.deleted.isEmpty = true := by
      simpa using (Bool.or_eq_false_iff.mp hexp).2
    exact List.isEmpty_iff.mp hempty

/-- The journal that is deleted now would bring back what is committed now. -/
theorem delete (h : Returning C D Bs) (hB : B.Valid C) (hrec : Recoverable C B D) :
    ∃ Bs', (Bs' = Bs ∨ Bs' = B :: Bs) ∧ Returning C D.delete Bs' := by
  have hsafe : D.delete.exposed = false → D.exposed = false := fun hexp =>
    (Bool.or_eq_false_iff.mp hexp).1
  cases hJ : D.journal with
  | none =>
    refine ⟨Bs, .inl rfl, h.congr ?_ fun hexp => .inr ⟨rfl, hsafe hexp⟩⟩
    unfold Disk.delete
    rw [hJ]
    rfl
  | some J =>
    have hdeleted : D.delete.deleted = J :: D.deleted := by
      unfold Disk.delete
      rw [hJ]
      rfl
    have hold : Returning C { D.delete with deleted := D.deleted } Bs :=
      h.congr rfl fun hexp => .inr ⟨rfl, hsafe hexp⟩
    refine ⟨B :: Bs, .inr rfl, ?_⟩
    unfold Returning at hold ⊢
    rw [hdeleted]
    refine .cons ⟨hB, fun hexp => hrec.congr hJ.symm rfl (hexp.trans (hsafe hexp).symm)⟩ ?_
    exact hold.imp fun J' B' hJ' => ⟨hJ'.1, fun hexp => (hJ'.2 hexp).congr rfl rfl rfl⟩

/-- **A call of the operating system** leaves what can come back, adds to it, or puts an end to it
    by a sync. -/
theorem perform (h : Returning C D Bs) (hB : B.Valid C) (hrec : Recoverable C B D) (e : PagerEnv)
    (c : OsCall) : ∃ Bs', (Bs' = Bs ∨ Bs' = B :: Bs ∨ Bs' = []) ∧
      Returning C (pagerMachine.perform D e c).2 Bs' := by
  cases c with
  | write f o d => exact ⟨Bs, .inl rfl, h.update f _⟩
  | truncate f n => exact ⟨Bs, .inl rfl, h.update f _⟩
  | sync f => exact ⟨[], .inr (.inr rfl), by cases f <;> exact .nil rfl⟩
  | delete =>
    obtain ⟨Bs', hBs, h'⟩ := h.delete hB hrec
    exact ⟨Bs', hBs.imp_right .inl, h'⟩
  | openJournal create =>
    refine ⟨Bs, .inl rfl, ?_⟩
    cases create with
    | false => exact h
    | true =>
      unfold pagerMachine
      dsimp only
      split
      · exact h
      · exact h.congr rfl fun hexp => .inr ⟨rfl, hexp⟩
  | fileSize | read | access | accessMaster | lock | unlock | checkReservedLock | randomness
  | recycle => exact ⟨Bs, .inl rfl, h⟩

/-- **A power failure** leaves the image that is committed, or one that a deleted journal brings
    back. -/
theorem powerFailure (h : Returning C D Bs) (hB : B.Valid C) (hrec : Recoverable C B D)
    (hexp : D.exposed = false) (hfail : PowerFailure C D D') :
    ∃ B' ∈ B :: Bs, B'.Valid C ∧ Recoverable C B' D' := by
  rcases hfail with hcrash | ⟨J, hJ, hcrash⟩
  · exact ⟨B, List.mem_cons_self, hB, hrec.crash hexp hcrash⟩
  · obtain ⟨i, hi, rfl⟩ := List.getElem_of_mem hJ
    have hlt : i < Bs.length := h.length_eq ▸ hi
    obtain ⟨hvalid, hback⟩ := List.Forall₂.get h hi hlt
    exact ⟨_, List.mem_cons_of_mem _ (List.getElem_mem hlt), hvalid, (hback hexp).crash hexp hcrash⟩

end Returning

/-! ### Refinement -/

/-- Between two calls, or with what is left of one, which is safe to run on. -/
def Running (C : PagerConfig) (s : PagerWorld) (t : TxStore) : Prop :=
  match s.running, t.pending with
  | none, none => Rest C t.committed t.working s.disk s.pager
  | some (a, p), some a' =>
    a' = a ∧ PagerSafe C (Moves a t.working) p (Done C a t.working) s.disk t.committed
  | _, _ => False

/-- The pager is where the store is, with the images that deleted journals can bring back. -/
structure Refines (C : PagerConfig) (s : PagerWorld) (t : TxStore) : Prop where
  committed : t.committed.Valid C
  working : t.working.Valid C
  running : Running C s t
  previous : Returning C s.disk t.previous

namespace Refines

/-- A call runs in the pager exactly while one is pending in the store. -/
theorem pending (h : Refines C s t) : s.running = none ↔ t.pending = none := by
  have hrun := h.running
  unfold Running at hrun
  split at hrun
  · next h1 h2 => simp [h1, h2]
  · next h1 h2 => simp [h1, h2]
  · exact hrun.elim

/-- Between two calls the pager is at rest, as the invariant has it. -/
theorem rest (h : Refines C s t) (hrun : s.running = none) :
    Rest C t.committed t.working s.disk s.pager := by
  have hpending := h.pending.mp hrun
  have hrest := h.running
  unfold Running at hrest
  rwa [hrun, hpending] at hrest

/-- The rest of the call that runs is safe, and it is the call that the store has pending. -/
theorem safe (h : Refines C s t) {a : PagerCall} {q : PagerProgram (PagerRc × Pager)}
    (hrun : s.running = some (a, q)) : t.pending = some a ∧
      PagerSafe C (Moves a t.working) q (Done C a t.working) s.disk t.committed := by
  have hsafe := h.running
  unfold Running at hsafe
  rw [hrun] at hsafe
  split at hsafe
  · next heq _ => cases heq
  · next heq hpending =>
    obtain ⟨rfl, hsafe⟩ := hsafe
    obtain ⟨rfl, rfl⟩ := Prod.mk.inj (Option.some.inj heq)
    exact ⟨hpending, hsafe⟩
  · exact hsafe.elim

/-- **At any moment**, the database is the one at the last commit, or a rollback makes it so. -/
theorem recoverable (h : Refines C s t) : Recoverable C t.committed s.disk := by
  cases hrun : s.running with
  | none => exact (h.rest hrun).recoverable
  | some x =>
    obtain ⟨a, q⟩ := x
    obtain ⟨-, hsafe⟩ := h.safe hrun
    cases q with
    | pure x =>
      obtain ⟨-, W', -, -, hrest⟩ := hsafe
      exact hrest.recoverable
    | call c k => exact hsafe.1

/-- Between two calls the pager is where the store is, when it is at rest. -/
theorem of_rest {B W : Image} {Bs : List Image} (hB : B.Valid C) (hW : W.Valid C) {D : Disk}
    {P : Pager} (h : Rest C B W D P) (hprev : Returning C D Bs) :
    Refines C ⟨D, P, none⟩ ⟨B, W, Bs, none⟩ :=
  ⟨hB, hW, h, hprev⟩

/-- A process that has just opened the database is where the store is after a restart. -/
theorem restart {B : Image} {Bs : List Image} (hB : B.Valid C) {D : Disk} (h : Recoverable C B D)
    (hprev : Returning C D Bs) : Refines C ⟨D, .init, none⟩ ⟨B, B, Bs, none⟩ :=
  of_rest hB hB (.inl ⟨rfl, .inl (.init h)⟩) hprev

/-- The start of a call, in the pager and in the store. -/
theorem call (h : Refines C s t) {a : PagerCall} (hstep : pagerStep C s (.call a) = some s')
    (ho : Orderly C s (.call a)) : ∃ t', TxStep C t (.call a) t' ∧ Refines C s' t' := by
  unfold pagerStep at hstep
  cases hrun : s.running with
  | some x =>
    rw [hrun] at hstep
    cases hstep
  | none =>
    rw [hrun] at hstep
    obtain rfl := Option.some.inj hstep
    exact ⟨{ t with pending := some a }, ⟨h.pending.mp hrun, rfl⟩, h.committed, h.working,
      ⟨rfl, (h.rest hrun).call h.committed h.working ho⟩, h.previous⟩

/-- A step of the operating system: nothing that the store shows, or the commit itself. -/
theorem os (h : Refines C s t) {e : PagerEnv} (hstep : pagerStep C s (.os e) = some s') :
    ∃ t', TxStep C t (.os e) t' ∧ Refines C s' t' := by
  unfold pagerStep at hstep
  cases hrun : s.running with
  | none =>
    rw [hrun] at hstep
    cases hstep
  | some x =>
    obtain ⟨a, q⟩ := x
    obtain ⟨hpending, hsafe⟩ := h.safe hrun
    rw [hrun] at hstep
    cases q with
    | pure x => cases hstep
    | call c k =>
      obtain rfl := Option.some.inj hstep
      obtain ⟨g, hmove, hsafe'⟩ := hsafe.2 e
      obtain ⟨Bs', hBs, hprev⟩ := h.previous.perform h.committed hsafe.1 e c
      -- the call of the operating system is not the commit, or it is
      have hg : g = t.committed ∨ t.pending = some .commitPhaseTwo ∧ g = t.working :=
        hmove.imp_right fun ⟨ha, hgW⟩ => ⟨ha ▸ hpending, hgW⟩
      have hvalid : g.Valid C := by
        rcases hg with rfl | ⟨-, rfl⟩
        · exact h.committed
        · exact h.working
      refine ⟨_, ⟨g, Bs', rfl, hg, hBs⟩, hvalid, h.working, ?_, hprev⟩
      unfold Running
      dsimp only
      rw [hpending]
      exact ⟨rfl, hsafe'⟩

/-- The return of a call: the working image moves as the call says. -/
theorem ret (h : Refines C s t) {rc : PagerRc} (hstep : pagerStep C s (.ret rc) = some s') :
    ∃ t', TxStep C t (.ret rc) t' ∧ Refines C s' t' := by
  unfold pagerStep at hstep
  cases hrun : s.running with
  | none =>
    rw [hrun] at hstep
    cases hstep
  | some x =>
    obtain ⟨a, q⟩ := x
    obtain ⟨hpending, hsafe⟩ := h.safe hrun
    rw [hrun] at hstep
    cases q with
    | call c k => cases hstep
    | pure x =>
      obtain ⟨rc', P⟩ := x
      obtain ⟨hB, W', hW', hret, hrest⟩ := hsafe
      dsimp only at hstep hret hrest
      split at hstep
      · next heq =>
        subst heq
        obtain rfl := Option.some.inj hstep
        exact ⟨_, ⟨a, W', hpending, hret, rfl⟩, of_rest hB hW' hrest h.previous⟩
      · cases hstep

/-- The state changes between two calls, when no program is running. -/
theorem between {W' : Image} {P' : Pager} (h : Refines C s t) (hrun : s.running = none)
    (hW' : W'.Valid C) (hrest : Rest C t.committed W' s.disk P') :
    Refines C { s with pager := P' } { t with working := W' } := by
  refine ⟨h.committed, hW', ?_, h.previous⟩
  unfold Running
  dsimp only
  rw [hrun, h.pending.mp hrun]
  exact hrest

/-- A look at a cached page shows the page of the working image. -/
theorem look (h : Refines C s t) {d : List UInt8} (hstep : pagerStep C s (.look p d) = some s') :
    ∃ t', TxStep C t (.look p d) t' ∧ Refines C s' t' := by
  unfold pagerStep at hstep
  dsimp only at hstep
  split at hstep
  · next pg hrun hlookup =>
    split at hstep
    · next heq =>
      subst heq
      obtain rfl := Option.some.inj hstep
      exact ⟨t, ⟨rfl, fun hp => (h.rest hrun).lookup hlookup hp⟩, h⟩
    · cases hstep
  · cases hstep

/-- The page count that the pager knows is that of the working image. -/
theorem count (h : Refines C s t) {n : Nat} (hstep : pagerStep C s (.count n) = some s') :
    ∃ t', TxStep C t (.count n) t' ∧ Refines C s' t' := by
  unfold pagerStep at hstep
  dsimp only at hstep
  split at hstep
  · next hcond =>
    obtain ⟨hrun, hvalid, hn⟩ := hcond
    obtain rfl := Option.some.inj hstep
    exact ⟨t, ⟨rfl, hn.trans ((h.rest (Option.isNone_iff_eq_none.mp hrun)).dbSize hvalid)⟩, h⟩
  · cases hstep

/-- A change to a cached page changes the page of the working image. -/
theorem modify (h : Refines C s t) {d : List UInt8}
    (hstep : pagerStep C s (.modify p d) = some s') (ho : Orderly C s (.modify p d)) :
    ∃ t', TxStep C t (.modify p d) t' ∧ Refines C s' t' := by
  obtain ⟨hpage, hd⟩ := ho
  obtain ⟨pg, hlookup, hdirty⟩ := (Option.any_eq_true ..).mp hpage
  unfold pagerStep at hstep
  dsimp only at hstep
  split at hstep
  · next hrun =>
    obtain rfl := Option.some.inj hstep
    refine ⟨_, rfl, h.between hrun (h.working.set hd) ?_⟩
    rcases h.rest hrun with ⟨-, hout⟩ | hworking
    · rw [(hout.quiet.clean pg (Pager.mem_of_lookup hlookup)).1] at hdirty
      cases hdirty
    · exact .inr (hworking.modify hlookup hdirty hd)
  · cases hstep

/-- The image is made smaller, in the pager and in the store. -/
theorem truncateImage (h : Refines C s t) {n : Nat}
    (hstep : pagerStep C s (.truncateImage n) = some s') (ho : Orderly C s (.truncateImage n)) :
    ∃ t', TxStep C t (.truncateImage n) t' ∧ Refines C s' t' := by
  obtain ⟨hmod, hcount, hpos, hle, hmj⟩ := ho
  unfold pagerStep at hstep
  dsimp only at hstep
  split at hstep
  · next hrun =>
    obtain rfl := Option.some.inj hstep
    rcases h.rest hrun with ⟨-, hout⟩ | hworking
    · rw [hout.quiet.dbModified] at hmod
      cases hmod
    · have hcut := hworking.truncateImage hcount hmod hpos hle hmj
      exact ⟨_, rfl, h.between hrun hcut.valid (.inr hcut)⟩
  · cases hstep

/-- A page leaves the cache, and the store does not notice. -/
theorem drop (h : Refines C s t) (hstep : pagerStep C s (.drop p) = some s') :
    ∃ t', TxStep C t (.drop p) t' ∧ Refines C s' t' := by
  unfold pagerStep at hstep
  dsimp only at hstep
  split at hstep
  · next pg hrun hlookup =>
    split at hstep
    · cases hstep
    · next hclean =>
      obtain rfl := Option.some.inj hstep
      refine ⟨t, rfl, h.between hrun h.working ?_⟩
      rcases h.rest hrun with ⟨heq, hout⟩ | hworking
      · exact .inl ⟨heq, hout.drop⟩
      · exact .inr (hworking.drop hlookup (by simpa using hclean))
  · cases hstep

end Refines

/-- **The pager is a store of transactions.**  Every step of the pager is one of the store, power
    failures included. -/
def pagerRefinement (C : PagerConfig) {B : Image} (hB : B.Valid C) {D : Disk}
    (hD : Recoverable C B D) (hdeleted : D.deleted = []) :
    Simulation ((pagerSystem C D).restrict (Orderly C)) (txStore C B) id where
  rel := Refines C
  init s hs := by
    obtain rfl : s = ⟨D, .init, none⟩ := hs
    exact ⟨_, rfl, .restart hB hD (.nil hdeleted)⟩
  step s l s' t _ h hstep := by
    obtain ⟨⟨hstep, hfail⟩, ho⟩ := hstep
    have hmatch : ∃ t', TxStep C t l t' ∧ Refines C s' t' := by
      cases l with
      | call a => exact h.call hstep ho
      | os e => exact h.os hstep
      | ret rc => exact h.ret hstep
      | look p d => exact h.look hstep
      | modify p d => exact h.modify hstep ho
      | count n => exact h.count hstep
      | truncateImage n => exact h.truncateImage hstep ho
      | drop p => exact h.drop hstep
      | kill =>
        obtain rfl := Option.some.inj hstep
        exact ⟨_, rfl, .restart h.committed h.recoverable h.previous⟩
      | powerFailure D' =>
        obtain rfl := Option.some.inj hstep
        obtain ⟨B', hmem, hB', hrec⟩ :=
          h.previous.powerFailure h.committed h.recoverable ho hfail
        exact ⟨_, ⟨B', hmem, rfl⟩, .restart hB' hrec (.nil hfail.deleted)⟩
    obtain ⟨t', hstep', h'⟩ := hmatch
    exact ⟨l, t', rfl, hstep', h'⟩

end Ecos.Sqlite.Rollback
