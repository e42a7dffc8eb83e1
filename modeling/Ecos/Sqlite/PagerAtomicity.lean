import Ecos.Sqlite.PagerSystem

namespace Ecos.Sqlite.Rollback

open Ecos.Lib Program

/-!
# Transactions are atomic and durable

What holds in every run of the pager, whenever the power fails or the process is killed.

* `pager_refines` — the pager is a store of transactions;
* `pager_recovers` — after a failure, the first lock brings the database back as it was at the last
  commit, or at one that a deleted journal goes back to;
* `pager_durable` — the second phase of a commit does not fail, and what it has committed survives
  from the next sync on;
* `pager_readers` — before a writer has the exclusive lock, the file is as it was.

The runs begin with a database file on a disk on which everything is done (`D.deleted = []`).
-/

variable {C : PagerConfig} {B : Image} {D : Disk} {s : PagerWorld} {as : List PagerLabel} {p : Nat}

/-- Every run ends where one of the store does, with the same labels. -/
theorem exists_store (hB : B.Valid C) (hD : Intact C B D) (hdeleted : D.deleted = [])
    (h : ((pagerSystem C D).restrict (Orderly C)).Run as s) :
    ∃ t, (txStore C B).Run as t ∧ Refines C s t := by
  obtain ⟨bs, t, hbs, hrun, hrel⟩ := (pagerRefinement C hB hD.recoverable hdeleted).run h
  obtain rfl : bs = as := by simpa using hbs
  exact ⟨t, hrun, hrel⟩

/-- **Transactions are atomic.**  Every run of the pager, cut off at any of its calls and whatever
    is then left of the files, is one of the store; and the files always hold the database as it was
    at the last commit, or a journal that brings it back.  There is one image to go back to for each
    of the journals whose deletion may be undone. -/
theorem pager_refines (hB : B.Valid C) (hD : Intact C B D) (hdeleted : D.deleted = [])
    (h : ((pagerSystem C D).restrict (Orderly C)).Run as s) :
    ∃ t, (txStore C B).Run as t ∧ Recoverable C t.committed s.disk ∧
      t.previous.length = s.disk.deleted.length := by
  obtain ⟨t, hrun, hrel⟩ := exists_store hB hD hdeleted h
  exact ⟨t, hrun, hrel.recoverable, hrel.previous.length_eq.symm⟩

/-- **Recovery.**  After a failure at any moment, also in the middle of a recovery, the first lock
    of a new process makes the file the database at the last commit, and there is no journal any
    more.  Only when the power fails while the deletion of a journal may be undone, it may be the
    database at an earlier commit instead, the one that this journal goes back to. -/
theorem pager_recovers (hB : B.Valid C) (hD : Intact C B D) (hdeleted : D.deleted = [])
    (h : ((pagerSystem C D).restrict (Orderly C)).Run as s) {D' : Disk}
    (hfail : D' = s.disk ∨ s.disk.exposed = false ∧ PowerFailure C s.disk D')
    (hno : NoMasterJournal D') : ∃ t, (txStore C B).Run as t ∧ ∃ B' ∈ t.committed :: t.previous,
      (D' = s.disk ∨ s.disk.deleted = [] → B' = t.committed) ∧
      PagerSafe C (fun B B' => B' = B) (pagerSharedLock C .init) (fun x D'' _ =>
        x.1 = .OK ∧ Intact C B' D'' ∨ x.1 = .BUSY) D' B' := by
  obtain ⟨t, hrun, hrel⟩ := exists_store hB hD hdeleted h
  obtain ⟨B', hmem, hlast, hB', hrec⟩ : ∃ B' ∈ t.committed :: t.previous,
      (D' = s.disk ∨ s.disk.deleted = [] → B' = t.committed) ∧ B'.Valid C ∧
        Recoverable C B' D' := by
    by_cases hsame : D' = s.disk
    · exact ⟨t.committed, List.mem_cons_self, fun _ => rfl, hrel.committed,
        hsame ▸ hrel.recoverable⟩
    · obtain ⟨hexp, hfail⟩ := hfail.resolve_left hsame
      obtain ⟨B', hmem, hB', hrec⟩ :=
        hrel.previous.powerFailure hrel.committed hrel.recoverable hexp hfail
      refine ⟨B', hmem, fun hnone => ?_, hB', hrec⟩
      rw [hrel.previous.eq_nil (hnone.resolve_left hsame)] at hmem
      exact List.mem_singleton.mp hmem
  have hsafe : PagerSafe C (fun B B' => B' = B) (pagerSharedLock C .init) _ D' B' :=
    (Idle.init hrec).pagerSharedLock rfl hB' hno
  refine ⟨t, hrun, B', hmem, hlast, hsafe.imp ?_⟩
  rintro x D'' B'' ⟨rfl, ⟨hok, -, hreading⟩ | ⟨hbusy, -⟩⟩
  · exact .inl ⟨hok, hreading.intact⟩
  · exact .inr hbusy

/-- Without a journal, and with none that may be there again, the power may fail. -/
theorem Intact.powerFailure {D' : Disk} (h : Intact C B D) (hexp : D.exposed = false)
    (hdeleted : D.deleted = []) (hfail : PowerFailure C D D') : Intact C B D' := by
  rcases hfail with hcrash | ⟨J, hJ, -⟩
  · refine (h.recoverable.crash hexp hcrash).intact ?_
    have hjournal := hcrash.2.2.2
    rw [h.journal] at hjournal
    exact hjournal
  · rw [hdeleted] at hJ
    exact absurd hJ List.not_mem_nil

/-- An image that is intact stays so when a file is synced. -/
theorem Intact.sync (h : Intact C B D) (f : FileId) : Intact C B (D.sync f) := by
  cases f with
  | journal =>
    refine ⟨?_, h.db⟩
    show D.journal.map Storage.sync = none
    rw [h.journal]
    rfl
  | db =>
    refine ⟨h.journal, fun v hv => ?_⟩
    rw [Storage.mem_versions_synced.mp hv]
    exact h.db _ cur_mem_dbVersions

/-- A sync exposes nothing that was not exposed before it. -/
theorem Disk.sync_exposed (hexp : D.exposed = false) (f : FileId) :
    (D.sync f).exposed = false := by
  cases f with
  | journal => exact hexp
  | db => rfl

/-- **Transactions are durable.**  After the first phase of a commit, the second one succeeds; then
    the file is the database that the transaction has made.  It stays so when the power fails behind
    the next sync of a file.  When it fails before, the journal may be there again, and what is on
    the disk is brought back to what was committed before; it is never anything else. -/
theorem pager_durable (hB : B.Valid C) (hD : Intact C B D) (hdeleted : D.deleted = [])
    (h : ((pagerSystem C D).restrict (Orderly C)).Run as s) (hrun : s.running = none)
    (hstate : s.pager.state = .SYNCED) : ∃ t, (txStore C B).Run as t ∧ t.previous = [] ∧
      PagerSafe C (fun B B' => B' = B ∨ B' = t.working) (sqlite3PagerCommitPhaseTwo s.pager)
        (fun x D' _ => x.1 = .OK ∧ Intact C t.working D' ∧
          (∀ D'', PowerFailure C D' D'' →
            Intact C t.working D'' ∨ Recoverable C t.committed D'') ∧
          ∀ f D'', PowerFailure C (D'.sync f) D'' → Intact C t.working D'')
        s.disk t.committed := by
  obtain ⟨t, hstore, hrel⟩ := exists_store hB hD hdeleted h
  have hworking : Working C t.committed t.working s.disk s.pager := by
    rcases hrel.rest hrun with ⟨-, hidle | hreading⟩ | hworking
    · rw [hidle.state] at hstate
      cases hstate
    · exact absurd hstate hreading.state.2
    · exact hworking
  obtain ⟨isOpen, ⟨J, sealed, tail, -, htxn⟩, -⟩ := hworking.txn
  refine ⟨t, hstore, hrel.previous.eq_nil (htxn.synced hstate).1.deleted, ?_⟩
  refine (hworking.commitPhaseTwo (.inr rfl) (.inl rfl) fun _ => hstate).imp ?_
  rintro x D' B' ⟨rfl, hok, hend, hreading⟩
  obtain ⟨hexp, hback⟩ := hend hstate
  refine ⟨hok, hreading.intact, fun D'' hfail => ?_, fun f D'' hfail => ?_⟩
  · rcases hfail with hcrash | ⟨J', hJ', hcrash⟩
    · refine .inl ((hreading.intact.recoverable.crash hexp hcrash).intact ?_)
      have hjournal := hcrash.2.2.2
      rw [hreading.intact.journal] at hjournal
      exact hjournal
    · exact .inr ((hback J' hJ').crash hexp hcrash)
  · exact (hreading.intact.sync f).powerFailure (Disk.sync_exposed hexp f) (by cases f <;> rfl)
      hfail

/-- **Readers** find the database as it was at the last commit, until the writer has locked them
    out. -/
theorem pager_readers (hB : B.Valid C) (hD : Intact C B D) (hdeleted : D.deleted = [])
    (h : ((pagerSystem C D).restrict (Orderly C)).Run as s) (hrun : s.running = none)
    (hstate : s.pager.state = .SHARED ∨ s.pager.state = .RESERVED) : ∃ t,
      (txStore C B).Run as t ∧ s.disk.db.cur.size = t.committed.n * C.pageSize ∧
      ∀ p, t.committed.Used C p → HasPage C s.disk.db.cur p (t.committed.page p) := by
  obtain ⟨t, hstore, hrel⟩ := exists_store hB hD hdeleted h
  refine ⟨t, hstore, ?_⟩
  rcases hrel.rest hrun with ⟨-, hidle | hreading⟩ | hworking
  · rw [hidle.state] at hstate
    simp at hstate
  · exact ⟨hreading.intact.size, fun p hp => hreading.intact.hasPage hp⟩
  · obtain ⟨isOpen, ⟨J, sealed, tail, -, htxn⟩, -⟩ := hworking.txn
    obtain ⟨hpages, hsize, -⟩ := htxn.reserved (hstate.resolve_left (ne_shared htxn.state))
    exact ⟨hsize, hpages⟩

/-! ### A run -/

/-- An orderly step, other than a failure of the power, as a function that can be computed. -/
def orderlyStep (C : PagerConfig) (s : PagerWorld) (l : PagerLabel) : Option PagerWorld :=
  match l with
  | .powerFailure _ => none
  | l => if Orderly C s l then pagerStep C s l else none

/-- A step of the function that runs orderly steps is an orderly step. -/
theorem orderlyStep_step {s s' : PagerWorld} {l : PagerLabel} (h : orderlyStep C s l = some s') :
    ((pagerSystem C D).restrict (Orderly C)).step s l s' := by
  unfold orderlyStep at h
  split at h
  · cases h
  · next l hl =>
    split at h
    · next ho =>
      refine ⟨⟨h, ?_⟩, ho⟩
      split
      · next D' => exact absurd rfl (hl D')
      · trivial
    · cases h

/-- The power fails when all was written to the disk, so that nothing is lost. -/
def Disk.outage (D : Disk) : Disk where
  db := .synced D.db.cur
  journal := D.journal.map fun J => .synced J.cur
  deleted := []
  exposed := false

/-- What is current is one of the things that a power failure can leave. -/
theorem crash_outage : Crash C D D.outage := by
  refine ⟨rfl, rfl, ⟨_, Storage.crashImage_cur, rfl⟩, ?_⟩
  unfold Disk.outage
  cases D.journal with
  | none => rfl
  | some J => exact .inl ⟨_, Storage.crashImage_cur, rfl⟩

/-- Pages and sectors of 512 bytes, the smallest that the pager takes. -/
def config512 : PagerConfig := ⟨9, 9, Nat.le_refl 9, Nat.le_refl 9, Nat.le_of_ble_eq_true rfl⟩

/-- A database of one page, all of whose bytes are zero. -/
def blankImage : Image := ⟨1, fun _ => List.replicate 512 0⟩

/-- A disk with a database of one blank page. -/
def blankDisk : Disk := ⟨.synced ⟨512, fun _ => 0, fun _ _ => rfl⟩, none, [], false⟩

/-- The blank image is one that a pager can have. -/
theorem blankImage_valid : blankImage.Valid config512 where
  length_page _ := List.length_replicate
  n_le := Nat.le_of_ble_eq_true rfl
  n_ne := one_ne_mjPgno

/-- The image is intact on the blank disk: there is no journal, and the file is synced. -/
theorem blankDisk_intact : Intact config512 blankImage blankDisk where
  journal := rfl
  db v hv := by
    obtain rfl := List.mem_singleton.mp hv
    refine ⟨⟨fun p hp _ => ?_, fun _ => ?_⟩, rfl⟩
    · obtain rfl : p = 1 := Nat.le_antisymm hp.2.1 hp.1
      refine ⟨Nat.le_refl _, List.eq_replicate_iff.mpr ⟨Content.length_read .., fun b hb => ?_⟩⟩
      obtain ⟨k, -, rfl⟩ := List.mem_map.mp hb
      rfl
    · exact Nat.le_of_ble_eq_true rfl

/-- The next `n` calls of the operating system; every lock is granted. -/
def granted (n : Nat) : List PagerLabel := List.replicate n (.os ⟨true, 0, none⟩)

/-- A transaction changes the page: it is fetched, journaled and set to sevens. -/
def changeLabels : List PagerLabel :=
  .call (.get 1) :: granted 5 ++ .ret .OK :: .call (.begin false) :: granted 4 ++
    .ret .OK :: .call (.write 1) :: granted 3 ++ [.ret .OK, .modify 1 (List.replicate 512 7)]

/-- The page is written to the file, which is not synced yet, when the power will fail. -/
def tornLabels : List PagerLabel := changeLabels ++ .call .commitPhaseOne :: granted 6

/-- The journal is played back, by the process that opens the database next. -/
def recoveryLabels : List PagerLabel := .call (.get 1) :: granted 32 ++ [.ret .OK]

/-- A list of orderly steps, one after the other. -/
def exec (s : PagerWorld) (ls : List PagerLabel) : Option PagerWorld :=
  ls.foldlM (orderlyStep config512) s

/-- Orderly steps after an orderly run make a longer one. -/
theorem exec_run {s s' : PagerWorld} {as ls : List PagerLabel}
    (h : ((pagerSystem config512 D).restrict (Orderly config512)).Run as s)
    (hexec : exec s ls = some s') :
    ((pagerSystem config512 D).restrict (Orderly config512)).Run (as ++ ls) s' :=
  h.of_foldlM (fun _ _ _ hstep => orderlyStep_step hstep) hexec

/-- A run, with what is known of its last state by evaluation. -/
theorem exists_exec {s : PagerWorld} {ls : List PagerLabel} {p : PagerWorld → Bool}
    (h : (exec s ls).any p = true) : ∃ s', exec s ls = some s' ∧ p s' = true :=
  (Option.any_eq_true ..).mp h

/-- The transaction is cut short, and what it wrote is torn, until it is rolled back. -/
theorem tornLabels_exec : ∃ s₁ s₂, exec ⟨blankDisk, .init, none⟩ tornLabels = some s₁ ∧
    s₁.disk.exposed = false ∧ exec ⟨s₁.disk.outage, .init, none⟩ recoveryLabels = some s₂ := by
  have hexec : (exec ⟨blankDisk, .init, none⟩ tornLabels).any (fun s₁ =>
      !s₁.disk.exposed && (exec ⟨s₁.disk.outage, .init, none⟩ recoveryLabels).isSome) = true := by
    decide +kernel
  obtain ⟨s₁, h₁, hp⟩ := exists_exec hexec
  obtain ⟨hexp, hsome⟩ := Bool.and_eq_true_iff.mp hp
  obtain ⟨s₂, h₂⟩ := Option.isSome_iff_exists.mp hsome
  exact ⟨s₁, s₂, h₁, by simpa using hexp, h₂⟩

/-- A power failure in the commit, and the recovery behind it, as a run of the store. -/
theorem pager_refines_torn : ∃ D₁ D₂ t, (txStore config512 blankImage).Run
    (tornLabels ++ [.powerFailure D₁] ++ recoveryLabels) t ∧
    Recoverable config512 t.committed D₂ ∧ t.previous.length = D₂.deleted.length := by
  obtain ⟨s₁, s₂, h₁, hexp, h₂⟩ := tornLabels_exec
  have hrun := exec_run (D := blankDisk) (.init rfl) h₁
  have hfail : ((pagerSystem config512 blankDisk).restrict (Orderly config512)).Run
      (tornLabels ++ [.powerFailure s₁.disk.outage]) ⟨s₁.disk.outage, .init, none⟩ :=
    hrun.step ⟨⟨rfl, .inl crash_outage⟩, hexp⟩
  obtain ⟨t, hstore, hrec, hlength⟩ :=
    pager_refines blankImage_valid blankDisk_intact rfl (exec_run hfail h₂)
  exact ⟨_, _, t, hstore, hrec, hlength⟩

/-- The page is in the file for good, and the journal still there. -/
def syncedLabels : List PagerLabel :=
  changeLabels ++ .call .commitPhaseOne :: granted 7 ++ [.ret .OK]

/-- The journal is deleted, which is not on the disk yet: it may come back. -/
def committedLabels : List PagerLabel :=
  syncedLabels ++ .call .commitPhaseTwo :: granted 2 ++ [.ret .OK]

/-- The power fails when only the deletion was not written to the disk. -/
def Disk.undelete (D : Disk) : Disk := { D with journal := D.deleted.head? }.outage

/-- The deletion of the journal is undone by a power failure, and the pager plays the journal
    back. -/
theorem pager_recovers_undone : ∃ s t, exec ⟨blankDisk, .init, none⟩ committedLabels = some s ∧
    (txStore config512 blankImage).Run committedLabels t ∧ ∃ B' ∈ t.committed :: t.previous,
      (s.disk.undelete = s.disk ∨ s.disk.deleted = [] → B' = t.committed) ∧
      PagerSafe config512 (fun B B' => B' = B) (pagerSharedLock config512 .init) (fun x D'' _ =>
        x.1 = .OK ∧ Intact config512 B' D'' ∨ x.1 = .BUSY) s.disk.undelete B' := by
  have hexec : (exec ⟨blankDisk, .init, none⟩ committedLabels).any (fun s =>
      s.disk.deleted.head?.isSome && decide (s.disk.exposed = false ∧
        NoMasterJournal s.disk.undelete)) = true := by
    decide +kernel
  obtain ⟨s, h, hp⟩ := exists_exec hexec
  obtain ⟨hsome, hcond⟩ := Bool.and_eq_true_iff.mp hp
  obtain ⟨hexp, hno⟩ := of_decide_eq_true hcond
  obtain ⟨J, hJ⟩ := Option.isSome_iff_exists.mp hsome
  have hfail : PowerFailure config512 s.disk s.disk.undelete := by
    refine .inr ⟨J, List.mem_of_mem_head? hJ, ?_⟩
    unfold Disk.undelete
    rw [hJ]
    exact crash_outage
  obtain ⟨t, hstore, hsafe⟩ := pager_recovers blankImage_valid blankDisk_intact rfl
    (exec_run (.init rfl) h) (.inr ⟨hexp, hfail⟩) hno
  exact ⟨s, t, h, hstore, hsafe⟩

/-- One page is changed and committed, and the commit is final once it is synced. -/
theorem pager_durable_change : ∃ s t, exec ⟨blankDisk, .init, none⟩ syncedLabels = some s ∧
    (txStore config512 blankImage).Run syncedLabels t ∧ t.previous = [] ∧
    PagerSafe config512 (fun B B' => B' = B ∨ B' = t.working) (sqlite3PagerCommitPhaseTwo s.pager)
      (fun x D' _ => x.1 = .OK ∧ Intact config512 t.working D' ∧
        (∀ D'', PowerFailure config512 D' D'' →
          Intact config512 t.working D'' ∨ Recoverable config512 t.committed D'') ∧
        ∀ f D'', PowerFailure config512 (D'.sync f) D'' → Intact config512 t.working D'')
      s.disk t.committed := by
  have hexec : (exec ⟨blankDisk, .init, none⟩ syncedLabels).any (fun s =>
      s.running.isNone && s.pager.state = .SYNCED) = true := by
    decide +kernel
  obtain ⟨s, h, hp⟩ := exists_exec hexec
  obtain ⟨hrun, hstate⟩ := Bool.and_eq_true_iff.mp hp
  obtain ⟨t, hstore, hsafe⟩ := pager_durable blankImage_valid blankDisk_intact rfl
    (exec_run (.init rfl) h) (Option.isNone_iff_eq_none.mp hrun) (of_decide_eq_true hstate)
  exact ⟨s, t, h, hstore, hsafe⟩

/-- One page is changed, and not yet written, and the file is what readers may read. -/
theorem pager_readers_change : ∃ s t, exec ⟨blankDisk, .init, none⟩ changeLabels = some s ∧
    (txStore config512 blankImage).Run changeLabels t ∧
    s.disk.db.cur.size = t.committed.n * config512.pageSize ∧
    ∀ p, t.committed.Used config512 p →
      HasPage config512 s.disk.db.cur p (t.committed.page p) := by
  have hexec : (exec ⟨blankDisk, .init, none⟩ changeLabels).any (fun s =>
      s.running.isNone && s.pager.state = .RESERVED) = true := by
    decide +kernel
  obtain ⟨s, h, hp⟩ := exists_exec hexec
  obtain ⟨hrun, hstate⟩ := Bool.and_eq_true_iff.mp hp
  obtain ⟨t, hstore, hfile⟩ := pager_readers blankImage_valid blankDisk_intact rfl
    (exec_run (.init rfl) h) (Option.isNone_iff_eq_none.mp hrun) (.inr (of_decide_eq_true hstate))
  exact ⟨s, t, h, hstore, hfile⟩

end Ecos.Sqlite.Rollback
