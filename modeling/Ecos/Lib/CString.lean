import Mathlib.Algebra.Ring.Int.Defs
import Mathlib.Algebra.Ring.Nat
import Mathlib.Data.List.TakeWhile
import Mathlib.Data.List.Basic

namespace Ecos.Lib

/-!
# C strings

A `char` buffer is a list of bytes; the string it holds ends at its first zero byte (a
buffer without one is read to its end).

* `cstr` — the bytes in front of the terminator;
* `strlen`, `strEq`, `strcpy` — on buffers, through `cstr`;
* `memcpy` — bytes copied into the middle of a buffer.
-/

/-- The string a buffer holds: its bytes up to the first zero byte. -/
def cstr (b : List UInt8) : List UInt8 := b.takeWhile (· ≠ 0)

/-- `strlen(b)`: the number of bytes before the terminator. -/
def strlen (b : List UInt8) : Nat := (cstr b).length

/-- `strcmp(a, b) == 0`: the bytes before the terminators are the same. -/
def strEq (a b : List UInt8) : Bool := cstr a == cstr b

/-- What `strcpy(dst, src)` leaves in a buffer of exactly `strlen(src) + 1` bytes. -/
def strcpy (src : List UInt8) : List UInt8 := cstr src ++ [0]

/-- An empty buffer holds the empty string. -/
@[simp] theorem cstr_nil : cstr [] = [] := rfl

/-- A zero byte in front empties the string. -/
@[simp] theorem cstr_zero_cons (b : List UInt8) : cstr (0 :: b) = [] := by simp [cstr]

/-- No byte of a string is zero, since the first zero ends it. -/
theorem ne_zero_of_mem_cstr {b : List UInt8} {c : UInt8} (h : c ∈ cstr b) : c ≠ 0 := by
  have := List.mem_takeWhile_imp h
  simpa using this

/-- Reading back a copied string gives the string, whatever was behind its terminator. -/
@[simp] theorem cstr_strcpy (s : List UInt8) : cstr (strcpy s) = cstr s := by
  have hall : ∀ c ∈ cstr s, decide (c ≠ 0) = true := by
    intro c hc
    simpa using ne_zero_of_mem_cstr hc
  show List.takeWhile _ (cstr s ++ [0]) = cstr s
  rw [List.takeWhile_append_of_pos hall]
  simp

/-- A string has length 0 when it is empty. -/
theorem strlen_eq_zero {b : List UInt8} : strlen b = 0 ↔ cstr b = [] := by
  simp [strlen]

/-- Overwriting the first byte of a non-empty buffer with zero empties its string. -/
@[simp] theorem cstr_set_zero (b : List UInt8) : cstr (b.set 0 0) = [] := by
  cases b <;> simp

/-- Bytes in front of a buffer, none of them a terminator, are in front of its string. -/
theorem cstr_append {s : List UInt8} (h : 0 ∉ s) (t : List UInt8) :
    cstr (s ++ t) = s ++ cstr t := by
  induction s with
  | nil => rfl
  | cons c s ih =>
    have hc : c ≠ 0 := fun h0 => h (h0 ▸ List.mem_cons_self)
    have hs : 0 ∉ s := fun h' => h (List.mem_cons_of_mem c h')
    rw [List.cons_append, List.cons_append, ← ih hs]
    simp [cstr, hc]

/-- The string of a buffer is what stands in front of the first terminator. -/
theorem cstr_append_zero {s : List UInt8} (h : 0 ∉ s) (t : List UInt8) :
    cstr (s ++ 0 :: t) = s := by
  rw [cstr_append h, cstr_zero_cons, List.append_nil]

/-- The first `strlen(b)` bytes of a buffer are its string. -/
theorem take_strlen (b : List UInt8) : b.take (strlen b) = cstr b :=
  (List.prefix_iff_eq_take.mp (List.takeWhile_prefix _)).symm

/-- A string is not longer than its buffer. -/
theorem strlen_le_length (b : List UInt8) : strlen b ≤ b.length :=
  (List.takeWhile_prefix _).length_le

/-- No string holds its own terminator, so that joining strings does not cut one short. -/
theorem zero_notMem_cstr (b : List UInt8) : 0 ∉ cstr b := fun h => ne_zero_of_mem_cstr h rfl

/-! ### Copying into a buffer -/

/-- The buffer `b` after `memcpy(&b[o], d, strlen(d))`, for `d` that fits in there. -/
def memcpy (b : List UInt8) (o : Nat) (d : List UInt8) : List UInt8 :=
  b.take o ++ d ++ b.drop (o + d.length)

/-- A copy within the buffer does not change its length, so that later offsets still lie in it. -/
theorem length_memcpy {b : List UInt8} {o : Nat} {d : List UInt8} (h : o + d.length ≤ b.length) :
    (memcpy b o d).length = b.length := by
  simp only [memcpy, List.length_append, List.length_take, List.length_drop]
  omega

/-- A copy replaces as many bytes as it writes. -/
theorem memcpy_append {p q d : List UInt8} {o : Nat} (ho : p.length = o)
    (h : q.length = d.length) (r : List UInt8) :
    memcpy (p ++ (q ++ r)) o d = p ++ (d ++ r) := by
  subst ho
  have hdrop : (p ++ (q ++ r)).drop (p.length + d.length) = r := by
    rw [← h, ← List.append_assoc, ← List.length_append, List.drop_left]
  rw [memcpy, List.take_left, hdrop, List.append_assoc]

/-- A copy right behind the first bytes of a buffer leaves them. -/
theorem prefix_memcpy {s b : List UInt8} (h : s <+: b) (d : List UInt8) :
    s ++ d <+: memcpy b s.length d := by
  have htake : b.take s.length = s := (List.prefix_iff_eq_take.mp h).symm
  rw [memcpy, htake]
  exact List.prefix_append _ _

end Ecos.Lib
