import Ecos.Lib.Bytes

namespace Ecos.Lib

/-!
# Files that a power failure damages

A file whose writes reach the disk in no particular order: after a power failure each block of it
holds what one of the writes since the last sync left there, or is damaged, and the size is
somewhere between the sizes that the file had since then.

* `Content` — a file of a certain size; what lies behind its end reads as zero;
* `Storage` — the content now, and the contents since the last sync;
* `Storage.CrashImage` — what a power failure may leave; a block that all writes left as it was is
  not damaged, and what a damaged block may hold is a parameter;
* `CrashImage.byte_eq` — what all contents since the last sync agree on survives;
* `crashImage_cur`, `CrashImage.eq_of_synced` — nothing need go wrong, and nothing can go wrong
  with a file that is synced.
-/

universe u

/-- What is in a file: its size, and the bytes below it. -/
structure Content (α : Type u) [Zero α] where
  size : Nat
  byte : Nat → α
  byte_of_le : ∀ i, size ≤ i → byte i = 0

variable {α : Type u} [Zero α]

namespace Content

/-- Two contents are one when their sizes and their bytes are. -/
@[ext] theorem ext {c d : Content α} (hsize : c.size = d.size) (hbyte : ∀ i, c.byte i = d.byte i) :
    c = d := by
  obtain ⟨n, f, hf⟩ := c
  obtain ⟨m, g, hg⟩ := d
  obtain rfl : n = m := hsize
  obtain rfl : f = g := funext hbyte
  rfl

/-- A new file, without bytes; reading it gives zeros. -/
def empty : Content α := ⟨0, fun _ => 0, fun _ _ => rfl⟩

/-- The `n` bytes from offset `o`, zeros behind the end. -/
def read (c : Content α) (o n : Nat) : List α := slice c.byte o n

/-- A read gives as many bytes as it was asked for, zeros past the end. -/
@[simp] theorem length_read (c : Content α) (o n : Nat) : (c.read o n).length = n :=
  length_slice ..

/-- The bytes `d` are written at offset `o`; a gap before them is filled with zeros. -/
def write (c : Content α) (o : Nat) (d : List α) : Content α where
  size := max c.size (o + d.length)
  byte := overwrite c.byte o d
  byte_of_le i hi := by
    rw [overwrite_of_ge _ (by omega)]
    exact c.byte_of_le i (by omega)

/-- The file is cut off behind `n` bytes, or filled up with zeros. -/
def truncate (c : Content α) (n : Nat) : Content α where
  size := n
  byte i := if i < n then c.byte i else 0
  byte_of_le i hi := if_neg (by omega)

/-- A write past the end makes the content longer. -/
@[simp] theorem size_write (c : Content α) (o : Nat) (d : List α) :
    (c.write o d).size = max c.size (o + d.length) := rfl

/-- Contents that agree on a range are read the same there. -/
theorem read_congr {c d : Content α} {o n : Nat}
    (h : ∀ i, o ≤ i → i < o + n → c.byte i = d.byte i) : c.read o n = d.read o n := by
  apply List.ext_getElem
  · simp
  · intro k hk _
    rw [length_read] at hk
    simpa [read] using h (o + k) (by omega) (by omega)

/-- Reads of a stretch that agree, agree at each byte of it. -/
theorem byte_of_read {c d : Content α} {o n i : Nat} (h : c.read o n = d.read o n) (hle : o ≤ i)
    (hlt : i < o + n) : c.byte i = d.byte i := by
  have hk : i - o < (c.read o n).length := by
    rw [length_read]
    omega
  have hget := List.getElem_of_eq h hk
  simp only [read, getElem_slice] at hget
  rwa [show o + (i - o) = i by omega] at hget

/-- Two reads, one behind the other, are one read of both stretches. -/
theorem read_append (c : Content α) (o m n : Nat) :
    c.read o m ++ c.read (o + m) n = c.read o (m + n) := slice_append ..

/-- A part of what was read is what a read of the part gives. -/
theorem read_part {c : Content α} {o n : Nat} {l : List α} (h : c.read o n = l) {a m : Nat}
    (hle : a + m ≤ n) : c.read (o + a) m = (l.drop a).take m := by
  rw [← h]
  apply List.ext_getElem
  · simp
    omega
  · intro k hk _
    rw [length_read] at hk
    simp [read, Nat.add_assoc]

/-- What was written is read back from where it was written. -/
theorem read_write (c : Content α) (o : Nat) (d : List α) : (c.write o d).read o d.length = d := by
  apply List.ext_getElem
  · simp
  · intro k _ hk
    simp only [read, getElem_slice]
    show overwrite c.byte o d (o + k) = d[k]
    rw [overwrite_of_mem _ (by omega) (by omega)]
    congr 1
    omega

/-- Writing in two pieces, one behind the other, is writing both at once. -/
theorem write_append (c : Content α) (o : Nat) (d₁ d₂ : List α) :
    (c.write o d₁).write (o + d₁.length) d₂ = c.write o (d₁ ++ d₂) := by
  refine ext ?_ fun i => congrFun (overwrite_append c.byte o d₁ d₂) i
  simp only [size_write, List.length_append]
  omega

/-- A write spares what lies elsewhere, in front of it or behind. -/
theorem read_write_of_disjoint (c : Content α) {o : Nat} {d : List α} {o' n : Nat}
    (h : o' + n ≤ o ∨ o + d.length ≤ o') : (c.write o d).read o' n = c.read o' n := by
  refine read_congr fun i hle hlt => ?_
  show overwrite c.byte o d i = c.byte i
  rcases h with h | h
  · exact overwrite_of_lt _ _ (by omega)
  · exact overwrite_of_ge _ (by omega)

/-- A truncation keeps the bytes before the cut, so they are read as before. -/
theorem read_truncate (c : Content α) {m o n : Nat} (h : o + n ≤ m) :
    (c.truncate m).read o n = c.read o n :=
  read_congr fun _ _ hlt => if_pos (by omega)

end Content

/-- A file, with what it held since the last sync: any of it may be what a crash leaves. -/
structure Storage (α : Type u) [Zero α] where
  cur : Content α
  past : List (Content α)

namespace Storage

/-- Everything that the file held since the last sync, the current content first. -/
def versions (f : Storage α) : List (Content α) := f.cur :: f.past

/-- A file whose content is on the disk, so that a crash leaves it alone. -/
def synced (c : Content α) : Storage α := ⟨c, []⟩

/-- The content becomes `c`, and the one before stays possible until the next sync. -/
def update (f : Storage α) (c : Content α) : Storage α := ⟨c, f.versions⟩

/-- The storage after a sync: only the current content is possible. -/
def sync (f : Storage α) : Storage α := synced f.cur

/-- The current content is the last one that was written. -/
@[simp] theorem cur_update (f : Storage α) (c : Content α) : (f.update c).cur = c := rfl

/-- Synced storage has one version, the one that is on the disk. -/
@[simp] theorem mem_versions_synced {c v : Content α} : v ∈ (synced c).versions ↔ v = c :=
  List.mem_singleton

/-- An update adds a version, and the earlier ones may still be what is left. -/
@[simp] theorem mem_versions_update {f : Storage α} {c v : Content α} :
    v ∈ (f.update c).versions ↔ v = c ∨ v ∈ f.versions := List.mem_cons

/-- The current content is a version: everything may have been written out in time. -/
theorem cur_mem_versions (f : Storage α) : f.cur ∈ f.versions := List.mem_cons_self ..

/-- What a power failure may leave of `f`, written in blocks of `S` bytes, where `Damage c b` says
    that `c` may be the outcome of damage to block `b`. -/
structure CrashImage (S : Nat) (Damage : Content α → Nat → Prop) (f : Storage α) (c : Content α) :
    Prop where
  size_ge : ∃ v ∈ f.versions, v.size ≤ c.size
  size_le : ∃ v ∈ f.versions, c.size ≤ v.size
  block : ∀ b, (∃ v ∈ f.versions, ∀ i, i / S = b → i < c.size → c.byte i = v.byte i) ∨
    ((∃ u ∈ f.versions, ∃ v ∈ f.versions, ∃ i, i / S = b ∧ u.byte i ≠ v.byte i) ∧ Damage c b)

variable {S : Nat} {Damage : Content α → Nat → Prop} {f : Storage α} {c : Content α}

/-- Nothing need go wrong: the current content is what a crash may leave. -/
theorem crashImage_cur : CrashImage S Damage f f.cur where
  size_ge := ⟨_, f.cur_mem_versions, Nat.le_refl _⟩
  size_le := ⟨_, f.cur_mem_versions, Nat.le_refl _⟩
  block _ := .inl ⟨_, f.cur_mem_versions, fun _ _ _ => rfl⟩

/-- What all contents agree on, in whole blocks, survives: it is in every image. -/
theorem CrashImage.byte_eq (h : CrashImage S Damage f c) {o n : Nat} (ho : S ∣ o) (hn : S ∣ n)
    {x : Nat → α} (hx : ∀ v ∈ f.versions, ∀ i, o ≤ i → i < o + n → v.byte i = x i) {i : Nat}
    (hle : o ≤ i) (hlt : i < o + n) (hsize : i < c.size) : c.byte i = x i := by
  obtain ⟨a, rfl⟩ := ho
  obtain ⟨m, rfl⟩ := hn
  -- the block of a byte of the range lies in the range
  have hblock : ∀ j, j / S = i / S → S * a ≤ j ∧ j < S * a + S * m := by
    intro j hj
    rw [← Nat.mul_add] at hlt ⊢
    have hpos : 0 < S := by
      rcases Nat.eq_zero_or_pos S with rfl | hpos
      · simp at hlt
      · exact hpos
    constructor
    · rw [Nat.mul_comm, ← Nat.le_div_iff_mul_le hpos, hj, Nat.le_div_iff_mul_le hpos, Nat.mul_comm]
      exact hle
    · rw [Nat.mul_comm, ← Nat.div_lt_iff_lt_mul hpos, hj, Nat.div_lt_iff_lt_mul hpos, Nat.mul_comm]
      exact hlt
  rcases h.block (i / S) with ⟨v, hv, heq⟩ | ⟨⟨u, hu, v, hv, j, hj, hne⟩, -⟩
  · rw [heq i rfl hsize, hx v hv i hle hlt]
  · obtain ⟨hjle, hjlt⟩ := hblock j hj
    exact absurd ((hx u hu j hjle hjlt).trans (hx v hv j hjle hjlt).symm) hne

/-- A size that no content falls below is a bound for every image. -/
theorem CrashImage.le_size (h : CrashImage S Damage f c) {n : Nat}
    (hn : ∀ v ∈ f.versions, n ≤ v.size) : n ≤ c.size := by
  obtain ⟨v, hv, hle⟩ := h.size_ge
  exact Nat.le_trans (hn v hv) hle

/-- A size that no content exceeds is a bound for every image. -/
theorem CrashImage.size_le_of (h : CrashImage S Damage f c) {n : Nat}
    (hn : ∀ v ∈ f.versions, v.size ≤ n) : c.size ≤ n := by
  obtain ⟨v, hv, hle⟩ := h.size_le
  exact Nat.le_trans hle (hn v hv)

/-- A file that is synced is not touched by a crash. -/
theorem CrashImage.eq_of_synced {d : Content α} (h : CrashImage S Damage (synced d) c) : c = d := by
  have hsize : c.size = d.size := by
    refine Nat.le_antisymm (h.size_le_of fun v hv => ?_) (h.le_size fun v hv => ?_)
    · exact Nat.le_of_eq (congrArg _ (mem_versions_synced.mp hv))
    · exact Nat.le_of_eq (congrArg _ (mem_versions_synced.mp hv).symm)
  refine Content.ext hsize fun i => ?_
  rcases Nat.lt_or_ge i c.size with hlt | hge
  · rcases h.block (i / S) with ⟨v, hv, heq⟩ | ⟨⟨u, hu, v, hv, j, -, hne⟩, -⟩
    · rw [heq i rfl hlt, mem_versions_synced.mp hv]
    · rw [mem_versions_synced.mp hu, mem_versions_synced.mp hv] at hne
      exact absurd rfl hne
  · rw [c.byte_of_le i hge, d.byte_of_le i (hsize ▸ hge)]

end Storage

end Ecos.Lib
