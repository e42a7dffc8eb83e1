import Ecos.Sqlite.PagerDisk
import Mathlib.Data.List.Sort

namespace Ecos.Sqlite.Rollback

open Ecos.Lib

/-!
# The page cache, and the pages of the file

* `lookup_mapPage`, `lookup_cleanAll`, ... — what is in the cache after each of its operations;
* `Pager.Unique` — no page is in the cache twice, which every operation keeps;
* `HasPage.write`, `DbHolds.write` — what is in the file after a page was written.
-/

/-! ### The cache -/

namespace Pager

variable {P : Pager} {p q n : Nat} {pg : PgHdr} {f : PgHdr → PgHdr}

/-- The page found in the cache is the one that was asked for. -/
theorem lookup_pgno (h : P.lookup p = some pg) : pg.pgno = p := by
  simpa using List.find?_some h

/-- The page found is one of those in the cache. -/
theorem mem_of_lookup (h : P.lookup p = some pg) : pg ∈ P.cache := List.mem_of_find?_eq_some h

/-- A change to every page that leaves the page numbers alone finds the pages changed. -/
theorem find?_map_page {cache : List PgHdr} (hf : ∀ pg, (f pg).pgno = pg.pgno) :
    (cache.map f).find? (·.pgno = p) = (cache.find? (·.pgno = p)).map f := by
  rw [List.find?_map]
  congr 2
  funext pg
  exact congrArg (fun k => decide (k = p)) (hf pg)

/-- A change to the page `q`, seen by a lookup. -/
theorem lookup_mapPage (hf : ∀ pg, (f pg).pgno = pg.pgno) :
    (P.mapPage q f).lookup p = if p = q then (P.lookup p).map f else P.lookup p := by
  unfold lookup mapPage
  rw [find?_map_page]
  · cases hfind : P.cache.find? (·.pgno = p) with
    | none => simp
    | some pg =>
      have hpgno : pg.pgno = p := by simpa using List.find?_some hfind
      by_cases hpq : p = q
      · simp [hpgno, hpq]
      · simp [hpgno, hpq]
  · intro pg
    split
    · exact hf pg
    · rfl

/-- The page that was changed is found changed, if it is in the cache. -/
theorem lookup_mapPage_self (hf : ∀ pg, (f pg).pgno = pg.pgno) (h : P.lookup p = some pg) :
    (P.mapPage p f).lookup p = some (f pg) := by
  rw [lookup_mapPage hf, if_pos rfl, h, Option.map_some]

/-- The other pages are found as they were when one is changed. -/
theorem lookup_mapPage_of_ne (hf : ∀ pg, (f pg).pgno = pg.pgno) (hne : p ≠ q) :
    (P.mapPage q f).lookup p = P.lookup p := by
  rw [lookup_mapPage hf, if_neg hne]

/-- The same pages are found before and after a change. -/
theorem isSome_lookup_mapPage (hf : ∀ pg, (f pg).pgno = pg.pgno) :
    ((P.mapPage q f).lookup p).isSome = (P.lookup p).isSome := by
  rw [lookup_mapPage hf]
  split
  · exact Option.isSome_map
  · rfl

/-- Every page is found clean, and with nothing to sync for. -/
@[simp] theorem lookup_cleanAll :
    P.cleanAll.lookup p =
      (P.lookup p).map fun pg => { pg with dirty := false, needSync := false } :=
  find?_map_page fun _ => rfl

/-- Every page is found with nothing to sync for. -/
@[simp] theorem lookup_clearSyncFlags :
    P.clearSyncFlags.lookup p = (P.lookup p).map fun pg => { pg with needSync := false } :=
  find?_map_page fun _ => rfl

/-- The pages up to `n` are still found, and no others. -/
theorem lookup_pcacheTruncate :
    (P.pcacheTruncate n).lookup p = if p ≤ n then P.lookup p else none := by
  unfold lookup pcacheTruncate
  rw [List.find?_filter]
  split
  · next hle =>
    congr 1
    funext pg
    by_cases hpg : pg.pgno = p
    · simp [hpg, hle]
    · simp [hpg]
  · next hlt =>
    rw [List.find?_eq_none]
    intro pg _ hpg
    simp only [decide_eq_true_eq] at hpg
    exact hlt (hpg.2 ▸ hpg.1)

/-- A page that was dropped is no longer found, and the others are. -/
theorem lookup_drop : (P.drop q).lookup p = if p = q then none else P.lookup p := by
  unfold lookup drop
  rw [List.find?_filter]
  split
  · next heq =>
    rw [List.find?_eq_none]
    intro pg _ hpg
    simp [heq] at hpg
  · next hne =>
    congr 1
    funext pg
    by_cases hpg : pg.pgno = p
    · simp [hpg, hne]
    · simp [hpg]

/-- No page is in the cache twice, so that a lookup finds the only one. -/
def Unique (P : Pager) : Prop := (P.cache.map (·.pgno)).Nodup

/-- In a cache without doubles, a page that is there is the one found. -/
theorem Unique.lookup (h : P.Unique) (hpg : pg ∈ P.cache) : P.lookup pg.pgno = some pg := by
  unfold Pager.lookup
  unfold Unique at h
  generalize P.cache = cache at h hpg
  induction cache with
  | nil => cases hpg
  | cons x xs ih =>
    rw [List.map_cons, List.nodup_cons] at h
    rcases List.mem_cons.mp hpg with rfl | hmem
    · simp
    · have hne : x.pgno ≠ pg.pgno := fun heq => h.1 (heq ▸ List.mem_map_of_mem hmem)
      simpa [hne] using ih h.2 hmem

/-- Operations that leave the page numbers alone make no doubles. -/
theorem Unique.of_map {P' : Pager} (h : P.Unique) (f : PgHdr → PgHdr)
    (hcache : P'.cache = P.cache.map f) (hf : ∀ pg, (f pg).pgno = pg.pgno) : P'.Unique := by
  unfold Unique
  rw [hcache, List.map_map, show (fun pg : PgHdr => pg.pgno) ∘ f = fun pg => pg.pgno from funext hf]
  exact h

/-- A change to one page makes no doubles, as long as it leaves the number alone. -/
theorem Unique.mapPage (h : P.Unique) (hf : ∀ pg, (f pg).pgno = pg.pgno) :
    (P.mapPage q f).Unique := by
  refine h.of_map (fun pg => if pg.pgno = q then f pg else pg) rfl fun pg => ?_
  show (if pg.pgno = q then f pg else pg).pgno = pg.pgno
  split
  · exact hf pg
  · rfl

/-- Cleaning all pages makes no doubles: their numbers are as before. -/
theorem Unique.cleanAll (h : P.Unique) : P.cleanAll.Unique := h.of_map _ rfl fun _ => rfl

/-- Clearing the flags makes no doubles: the numbers are as before. -/
theorem Unique.clearSyncFlags (h : P.Unique) : P.clearSyncFlags.Unique :=
  h.of_map _ rfl fun _ => rfl

/-- Dropping the pages past the end makes no doubles. -/
theorem Unique.pcacheTruncate (h : P.Unique) : (P.pcacheTruncate n).Unique :=
  h.sublist (List.filter_sublist.map _)

/-- Dropping a page makes no doubles of the others. -/
theorem Unique.drop (h : P.Unique) : (P.drop q).Unique :=
  h.sublist (List.filter_sublist.map _)

/-- A page that is not there can be added without making a double. -/
theorem Unique.cons {P' : Pager} (h : P.Unique) (hcache : P'.cache = pg :: P.cache)
    (hnone : P.lookup pg.pgno = none) : P'.Unique := by
  unfold Unique
  rw [hcache, List.map_cons, List.nodup_cons]
  refine ⟨fun hmem => ?_, h⟩
  obtain ⟨x, hx, heq⟩ := List.mem_map.mp hmem
  have hno := List.find?_eq_none.mp hnone x hx
  simp [heq] at hno

/-- The page that was added is found, in front of the others. -/
theorem lookup_cons {P' : Pager} (pg : PgHdr) (hcache : P'.cache = pg :: P.cache) :
    P'.lookup p = if p = pg.pgno then some pg else P.lookup p := by
  unfold lookup
  rw [hcache, List.find?_cons]
  by_cases h : pg.pgno = p
  · simp [h]
  · simp [h, Ne.symm h]

/-- The list of dirty pages has exactly the dirty pages of the cache. -/
theorem mem_dirtyList : pg ∈ P.dirtyList ↔ pg ∈ P.cache ∧ pg.dirty = true := by
  unfold dirtyList
  rw [(List.perm_insertionSort _ _).mem_iff, List.mem_filter]

end Pager

/-! ### The pages of the file -/

variable {C : PagerConfig} {B : Image} {K : List Nat} {c v : Content UInt8} {p q m : Nat}
  {d : List UInt8}

/-- Where page `p` ends in the file: the pages are counted from 1. -/
theorem page_end (hp : 1 ≤ p) : (p - 1) * C.pageSize + C.pageSize = p * C.pageSize := by
  rw [← Nat.succ_mul, Nat.succ_eq_add_one, Nat.sub_add_cancel hp]

/-- Different pages do not overlap in the file, so writing one spares the other. -/
theorem page_disjoint (hp : 1 ≤ p) (hq : 1 ≤ q) (hne : p ≠ q) :
    p * C.pageSize ≤ (q - 1) * C.pageSize ∨ q * C.pageSize ≤ (p - 1) * C.pageSize := by
  rcases Nat.lt_or_gt_of_ne hne with hlt | hlt
  · exact .inl (Nat.mul_le_mul_right _ (by omega))
  · exact .inr (Nat.mul_le_mul_right _ (by omega))

/-- A page that was written is read as it was written. -/
theorem pageAt_write_self (hd : d.length = C.pageSize) :
    pageAt C (c.write ((p - 1) * C.pageSize) d) p = d := by
  rw [pageAt, ← hd]
  exact Content.read_write ..

/-- The other pages are read as they were before a page was written. -/
theorem pageAt_write_of_ne (hp : 1 ≤ p) (hq : 1 ≤ q) (hne : q ≠ p) (hd : d.length = C.pageSize) :
    pageAt C (c.write ((p - 1) * C.pageSize) d) q = pageAt C c q := by
  refine Content.read_write_of_disjoint c ?_
  rw [hd, page_end hp, page_end hq]
  exact page_disjoint hq hp hne

/-- A page written past the end makes the file longer, up to the end of the page. -/
theorem size_write_page (hp : 1 ≤ p) (hd : d.length = C.pageSize) :
    (c.write ((p - 1) * C.pageSize) d).size = max c.size (p * C.pageSize) := by
  rw [Content.size_write, hd, page_end hp]

/-- The page that was written is there, and the file is long enough for it. -/
theorem hasPage_write (hp : 1 ≤ p) (hd : d.length = C.pageSize) :
    HasPage C (c.write ((p - 1) * C.pageSize) d) p d := by
  refine ⟨?_, pageAt_write_self hd⟩
  rw [size_write_page hp hd]
  exact Nat.le_max_right ..

/-- The other pages are left alone by the write of a page. -/
theorem HasPage.write {d' : List UInt8} (h : HasPage C c q d') (hp : 1 ≤ p) (hq : 1 ≤ q)
    (hne : q ≠ p) (hd : d.length = C.pageSize) :
    HasPage C (c.write ((p - 1) * C.pageSize) d) q d' := by
  refine ⟨?_, (pageAt_write_of_ne hp hq hne hd).trans h.2⟩
  rw [size_write_page hp hd]
  exact Nat.le_trans h.1 (Nat.le_max_left ..)

/-- A page that is left out is written, or what the image has. -/
theorem DbHolds.write (h : DbHolds C B K c) (hp : 1 ≤ p) (hd : d.length = C.pageSize)
    (hK : B.Used C p → p ∉ K → d = B.page p) :
    DbHolds C B K (c.write ((p - 1) * C.pageSize) d) := by
  refine ⟨fun q hq hqK => ?_, fun hn => ?_⟩
  · by_cases hqp : q = p
    · subst hqp
      rw [← hK hq hqK]
      exact hasPage_write hp hd
    · exact (h.1 q hq hqK).write hp hq.1 hqp hd
  · rw [size_write_page hp hd]
    exact Nat.lt_of_lt_of_le (h.2 hn) (Nat.le_max_left ..)

/-- The file is cut off behind the page, which stays. -/
theorem HasPage.truncate (h : HasPage C c q d) (hq : 1 ≤ q) (hle : q ≤ m) :
    HasPage C (c.truncate (C.pageSize * m)) q d := by
  have hmul := Nat.mul_le_mul_right C.pageSize hle
  rw [Nat.mul_comm m] at hmul
  refine ⟨hmul, ?_⟩
  rw [← h.2]
  refine Content.read_truncate c ?_
  rw [page_end hq]
  exact hmul

/-- The file is filled up to the end of a page that it does not have. -/
theorem HasPage.extend (h : HasPage C c q d) (hq : 1 ≤ q) (hshort : c.size < C.pageSize * m) :
    HasPage C (c.write (C.pageSize * m - 1) [0]) q d := by
  refine ⟨Nat.le_trans h.1 (Nat.le_max_left ..), ?_⟩
  rw [← h.2]
  refine Content.read_write_of_disjoint c (.inl ?_)
  have hsize := h.1
  rw [page_end hq]
  omega

/-- The file is cut off behind pages that are left out, and holds the others. -/
theorem DbHolds.truncate (h : DbHolds C B K c) (hm : 0 < B.n → 0 < m)
    (hK : ∀ q, B.Used C q → q ∉ K → q ≤ m) : DbHolds C B K (c.truncate (C.pageSize * m)) :=
  ⟨fun q hq hqK => (h.1 q hq hqK).truncate hq.1 (hK q hq hqK),
    fun hn => Nat.mul_pos C.pageSize_pos (hm hn)⟩

/-- Making a file longer by its last byte leaves the pages in it alone. -/
theorem DbHolds.extend (h : DbHolds C B K c) (hshort : c.size < C.pageSize * m) :
    DbHolds C B K (c.write (C.pageSize * m - 1) [0]) :=
  ⟨fun q hq hqK => (h.1 q hq hqK).extend hq.1 hshort,
    fun hn => Nat.lt_of_lt_of_le (h.2 hn) (Nat.le_max_left ..)⟩

/-- The size of a file that was made longer by its last byte. -/
theorem size_extend (hshort : c.size < C.pageSize * m) :
    (c.write (C.pageSize * m - 1) [0]).size = C.pageSize * m := by
  rw [Content.size_write, List.length_singleton]
  omega

end Ecos.Sqlite.Rollback
