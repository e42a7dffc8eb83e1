import Mathlib.Algebra.CharP.Two
import Mathlib.Algebra.Polynomial.Div
import Mathlib.Algebra.Polynomial.OfFn
import Mathlib.Algebra.Field.ZMod
import Mathlib.Tactic.LinearCombination
import Mathlib.Tactic.Ring

namespace Ecos.Lib.Crc

open Polynomial

/-!
# Cyclic redundancy codes

Polynomial division over GF(2), and the shift registers that compute it.

* `wordPoly`, `polyWord` — a word of `w` bits is a polynomial of degree below `w`;
* `remainder` — the message, with a register that is preset in front of it, modulo a generator;
* `msbStep`, `divide` — long division, one bit of the message at a time;
* `divide_eq` — long division computes the remainder;
* `lsbStep`, `lsbRun` — the register kept the other way round;
* `lsbRun_reverse` — it is the reflection of the long division;
* `lsbRun_xor` — several bits of the message may be folded in at once.
-/

variable {w : Nat}

/-! ### Words and polynomials -/

/-- A bit as a coefficient, where 1 + 1 = 0. -/
def bit (b : Bool) : ZMod 2 := if b then 1 else 0

/-- A zero bit is 0 as a coefficient. -/
@[simp] theorem bit_false : bit false = 0 := rfl

/-- A one bit is 1 as a coefficient. -/
@[simp] theorem bit_true : bit true = 1 := rfl

/-- The exclusive or of two bits is their sum, which is why no carries appear. -/
theorem bit_xor (a b : Bool) : bit (a ^^ b) = bit a + bit b := by
  cases a <;> cases b <;> decide

/-- A bit is 1 as a coefficient exactly when it is set. -/
@[simp] theorem bit_eq_one (b : Bool) : bit b = 1 ↔ b = true := by
  cases b <;> decide

/-- The polynomial of a word: bit `i` is the coefficient of `X ^ i`. -/
noncomputable def wordPoly (r : BitVec w) : (ZMod 2)[X] := ofFn w fun i => bit (r.getLsbD i)

/-- The word of the coefficients below `X ^ w`, the inverse of `wordPoly` on polynomials of that
    degree. -/
noncomputable def polyWord (w : Nat) (p : (ZMod 2)[X]) : BitVec w :=
  (BitVec.ofBoolListLE ((List.range w).map fun i => decide (p.coeff i = 1))).cast
    (by rw [List.length_map, List.length_range])

/-- The coefficients of a word are its bits, and zero beyond them. -/
@[simp] theorem coeff_wordPoly (r : BitVec w) (k : Nat) :
    (wordPoly r).coeff k = bit (r.getLsbD k) := by
  unfold wordPoly
  by_cases hk : k < w
  · rw [ofFn_coeff_eq_val_of_lt _ hk]
  · rw [ofFn_coeff_eq_zero_of_ge _ (Nat.not_lt.mp hk), BitVec.getLsbD_of_ge r k (Nat.not_lt.mp hk)]
    rfl

/-- A word of `w` bits has a degree below `w`, as a remainder must have. -/
theorem degree_wordPoly (r : BitVec w) : (wordPoly r).degree < w := ofFn_degree_lt _

/-- A word is the word of its polynomial, so that nothing is lost on the way. -/
@[simp] theorem polyWord_wordPoly (r : BitVec w) : polyWord w (wordPoly r) = r := by
  apply BitVec.eq_of_getLsbD_eq
  intro i hi
  rw [polyWord, BitVec.getLsbD_cast, BitVec.getLsbD_ofBoolListLE]
  simp [hi]

/-- The exclusive or of two words is their sum as polynomials. -/
theorem wordPoly_xor (r s : BitVec w) : wordPoly (r ^^^ s) = wordPoly r + wordPoly s := by
  ext k : 1
  rw [coeff_add, coeff_wordPoly, coeff_wordPoly, coeff_wordPoly, BitVec.getLsbD_xor, bit_xor]

/-- A shift to the left multiplies by `X`; the top bit falls out. -/
theorem wordPoly_shiftLeft (r : BitVec w) :
    wordPoly (r <<< 1) + C (bit r.msb) * X ^ w = X * wordPoly r := by
  ext k : 1
  rw [coeff_add, coeff_wordPoly, coeff_C_mul, coeff_X_pow]
  cases k with
  | zero =>
    rw [mul_coeff_zero, coeff_X_zero, zero_mul]
    by_cases hw : 0 = w
    · subst hw
      simp [BitVec.eq_nil r]
    · simp [hw]
  | succ k =>
    rw [coeff_X_mul, coeff_wordPoly]
    by_cases hw : k + 1 = w
    · subst hw
      simp [BitVec.msb_eq_getLsbD_last]
    · by_cases hk : k + 1 < w
      · rw [BitVec.getLsbD_shiftLeft]
        simp [hw, hk]
      · have hge : w ≤ k := by omega
        simp [hw, hk, BitVec.getLsbD_of_ge r k hge]

/-! ### Division -/

/-- The generator; its leading term `X ^ w` is not in the word. -/
noncomputable def generator (g : BitVec w) : (ZMod 2)[X] := X ^ w + wordPoly g

/-- The generator has degree `w`: its highest coefficient is not in the word. -/
theorem degree_generator (g : BitVec w) : (generator g).degree = w := by
  have hlt : (wordPoly g).degree < (X ^ w : (ZMod 2)[X]).degree := by
    rw [degree_X_pow]
    exact degree_wordPoly g
  rw [generator, degree_add_eq_left_of_degree_lt hlt, degree_X_pow]

/-- The generator is monic: the coefficient on top, which the word leaves out, is 1. -/
theorem monic_generator (g : BitVec w) : (generator g).Monic :=
  monic_X_pow_add (degree_wordPoly g)

/-- The polynomial of a message; its first bit has the highest power. -/
noncomputable def bitsPoly : List Bool → (ZMod 2)[X]
  | [] => 0
  | b :: bs => C (bit b) * X ^ bs.length + bitsPoly bs

/-- The remainder of a message, followed by `w` zeros, with the register preset to `init`. -/
noncomputable def remainder (g init : BitVec w) (bs : List Bool) : (ZMod 2)[X] :=
  (wordPoly init * X ^ bs.length + bitsPoly bs * X ^ w) %ₘ generator g

/-- A step of the long division, with the next bit of the message. -/
def msbStep (g r : BitVec w) (b : Bool) : BitVec w :=
  if (r.msb ^^ b) = true then (r <<< 1) ^^^ g else r <<< 1

/-- The long division: the register after all the bits of the message, from the first on. -/
def divide (g : BitVec w) : BitVec w → List Bool → BitVec w := List.foldl (msbStep g)

/-- A step subtracts the generator or not, and shifts the next bit in. -/
theorem wordPoly_msbStep (g r : BitVec w) (b : Bool) :
    X * wordPoly r + C (bit b) * X ^ w - wordPoly (msbStep g r b)
      = C (bit (r.msb ^^ b)) * generator g := by
  have hshift := wordPoly_shiftLeft r
  have hstep : wordPoly (msbStep g r b)
      = wordPoly (r <<< 1) + C (bit (r.msb ^^ b)) * wordPoly g := by
    unfold msbStep
    split
    · rename_i htop
      rw [wordPoly_xor, htop, bit_true, C_1, one_mul]
    · rename_i htop
      rw [Bool.not_eq_true] at htop
      rw [htop, bit_false, C_0, zero_mul, add_zero]
  have hneg : -(C (bit (r.msb ^^ b)) * wordPoly g) = C (bit (r.msb ^^ b)) * wordPoly g :=
    CharTwo.neg_eq _
  rw [hstep, generator, ← hshift, sub_eq_add_neg, neg_add, CharTwo.neg_eq (wordPoly (r <<< 1)),
    hneg, bit_xor, C_add]
  have htwo : wordPoly (r <<< 1) + wordPoly (r <<< 1) = 0 := CharTwo.add_self_eq_zero _
  linear_combination htwo

/-- **Long division** computes the remainder, by induction on the message. -/
theorem wordPoly_divide (g r : BitVec w) (bs : List Bool) :
    wordPoly (divide g r bs) = remainder g r bs := by
  have hmonic := monic_generator g
  induction bs generalizing r with
  | nil =>
    have hdegree : (wordPoly r).degree < (generator g).degree := by
      rw [degree_generator]
      exact degree_wordPoly r
    have hself := (modByMonic_eq_self_iff hmonic).mpr hdegree
    simp only [remainder, bitsPoly, List.length_nil, pow_zero, mul_one, zero_mul, add_zero, hself]
    rfl
  | cons b bs ih =>
    refine (ih (msbStep g r b)).trans (modByMonic_eq_of_dvd_sub hmonic ?_)
    have hstep := wordPoly_msbStep g r b
    refine ⟨-(C (bit (r.msb ^^ b)) * X ^ bs.length), ?_⟩
    rw [bitsPoly, List.length_cons, pow_succ]
    linear_combination -X ^ bs.length * hstep

/-- The register after the division is the word of the remainder. -/
theorem divide_eq (g r : BitVec w) (bs : List Bool) :
    divide g r bs = polyWord w (remainder g r bs) := by
  rw [← wordPoly_divide, polyWord_wordPoly]

/-! ### The reflected register -/

/-- A step of the register that is shifted to the right, as code for a serial line has it. -/
def lsbStep (g r : BitVec w) (b : Bool) : BitVec w :=
  if (r.getLsbD 0 ^^ b) = true then (r >>> 1) ^^^ g else r >>> 1

/-- The steps for a message, one for each bit, from the first on. -/
def lsbRun (g : BitVec w) : BitVec w → List Bool → BitVec w := List.foldl (lsbStep g)

/-- A shift to the right is one to the left of the reversed word. -/
theorem reverse_shiftRight (r : BitVec w) : (r >>> 1).reverse = r.reverse <<< 1 := by
  apply BitVec.eq_of_getLsbD_eq
  intro i hi
  rw [BitVec.getLsbD_reverse, BitVec.getLsbD_shiftLeft, BitVec.getLsbD_reverse]
  cases i with
  | zero =>
    have hout := BitVec.getLsbD_of_ge r (1 + (w - 1)) (by omega)
    simp [BitVec.getMsbD_eq_getLsbD, hout]
  | succ i =>
    have hlt : i < w := by omega
    have hsub : 1 + (w - 1 - (i + 1)) = w - 1 - i := by omega
    simp [BitVec.getMsbD_eq_getLsbD, hi, hlt, hsub]

/-- The exclusive or can be taken of the reversed words, so that the two shift directions agree. -/
theorem reverse_xor (r s : BitVec w) : (r ^^^ s).reverse = r.reverse ^^^ s.reverse := by
  apply BitVec.eq_of_getLsbD_eq
  intro i hi
  rw [BitVec.getLsbD_reverse, BitVec.getLsbD_xor, BitVec.getLsbD_reverse, BitVec.getLsbD_reverse,
    BitVec.getMsbD_xor]

/-- A step on the reversed word, the lowest bit first, is a step on the word. -/
theorem lsbStep_reverse (g r : BitVec w) (b : Bool) :
    (lsbStep g r b).reverse = msbStep g.reverse r.reverse b := by
  unfold lsbStep msbStep
  rw [BitVec.msb_reverse]
  split
  · rw [reverse_xor, reverse_shiftRight]
  · exact reverse_shiftRight r

/-- **Reflection.**  The register that is shifted to the right holds the reverse of the one that is
    shifted to the left, with the reverse of the generator. -/
theorem lsbRun_reverse (g r : BitVec w) (bs : List Bool) :
    (lsbRun g r bs).reverse = divide g.reverse r.reverse bs := by
  induction bs generalizing r with
  | nil => rfl
  | cons b bs ih =>
    refine (ih (lsbStep g r b)).trans ?_
    rw [lsbStep_reverse]
    rfl

/-- A step without a bit of the message, where the message was added to the register before. -/
theorem lsbStep_xor (g r x : BitVec w) :
    lsbStep g (r ^^^ x) false = lsbStep g r (x.getLsbD 0) ^^^ (x >>> 1) := by
  unfold lsbStep
  rw [BitVec.getLsbD_xor, Bool.xor_false, BitVec.ushiftRight_xor_distrib]
  split
  · rw [BitVec.xor_assoc, BitVec.xor_comm (x >>> 1) g, ← BitVec.xor_assoc]
  · rfl

/-- **Several bits at once.**  Instead of one by one, the bits of a message may be added to the
    register before the steps. -/
theorem lsbRun_xor (g r x : BitVec w) (k : Nat) :
    lsbRun g (r ^^^ x) (List.replicate k false)
      = lsbRun g r ((List.range k).map x.getLsbD) ^^^ (x >>> k) := by
  induction k generalizing r x with
  | zero => simp [lsbRun]
  | succ k ih =>
    have hbits : (List.range (k + 1)).map x.getLsbD
        = x.getLsbD 0 :: (List.range k).map (x >>> 1).getLsbD := by
      rw [List.range_succ_eq_map, List.map_cons, List.map_map]
      refine congrArg _ (List.map_congr_left fun i _ => ?_)
      rw [Function.comp_apply, BitVec.getLsbD_ushiftRight, Nat.add_comm, Nat.succ_eq_add_one]
    have hshift : x >>> (k + 1) = x >>> 1 >>> k := by
      rw [← BitVec.shiftRight_add, Nat.add_comm]
    rw [hbits, hshift, List.replicate_succ]
    refine Eq.trans ?_ (ih (lsbStep g r (x.getLsbD 0)) (x >>> 1))
    rw [← lsbStep_xor]
    rfl

end Ecos.Lib.Crc
