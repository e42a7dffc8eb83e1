import Ecos.Lib.Crc

namespace Ecos.Eth

open Ecos.Lib

/-!
# The CRC of the 8139 driver

The model of `ether_crc`, which the driver hopes to be the CRC of IEEE 802.3.

* `etherCrcBit`, `etherCrcByte`, `etherCrc` — the function, with its inner and its outer loop;
* `ieeeCrc` — the CRC-32 as a division of polynomials over GF(2);
* `ether_crc_ieee` — they are the same.
-/

/-! ### The function -/

/-- The body of the inner loop of `ether_crc`. -/
def etherCrcBit (crc : BitVec 32) : BitVec 32 :=
  if crc &&& 1 ≠ 0 then (crc >>> 1) ^^^ 0xEDB88320
  else crc >>> 1

/-- The body of the outer loop: a byte is folded in, and the inner loop runs eight times. -/
def etherCrcByte (crc : BitVec 32) (byte : UInt8) : BitVec 32 :=
  etherCrcBit^[8] (crc ^^^ byte.toBitVec.setWidth 32)

/-- `ether_crc`, of the `length` bytes at `data`, with the complement before and after. -/
def etherCrc (data : List UInt8) : BitVec 32 := data.foldl etherCrcByte 0xFFFFFFFF ^^^ 0xFFFFFFFF

/-! ### The CRC of IEEE 802.3 -/

/-- The generator polynomial without its leading term, as the standard writes it. -/
def ieeeGenerator : BitVec 32 := 0x04C11DB7

/-- The bits of a string, the least significant bit of each byte first. -/
def messageBits (data : List UInt8) : List Bool :=
  data.flatMap fun byte => (List.range 8).map byte.toBitVec.getLsbD

/-- The CRC-32 of IEEE 802.3: the remainder of the division, with the register preset to all ones,
    is reversed and complemented. -/
noncomputable def ieeeCrc (data : List UInt8) : BitVec 32 :=
  ~~~(Crc.polyWord 32 (Crc.remainder ieeeGenerator (BitVec.allOnes 32) (messageBits data))).reverse

/-! ### They are the same -/

/-- The constant of the code is the reflected generator, since the code shifts to the right. -/
theorem reverse_constant : (0xEDB88320 : BitVec 32).reverse = ieeeGenerator := by
  decide +kernel

/-- The inner loop does the steps of a reflected register. -/
theorem etherCrcBit_eq (crc : BitVec 32) :
    etherCrcBit crc = Crc.lsbStep 0xEDB88320 crc false := by
  have hbit : crc &&& 1 ≠ 0 ↔ (crc.getLsbD 0 ^^ false) = true := by
    have hone : crc &&& 1 = BitVec.setWidth 32 (BitVec.ofBool (crc.getLsbD 0)) :=
      BitVec.and_one_eq_setWidth_ofBool_getLsbD
    rw [hone]
    cases crc.getLsbD 0 with
    | false => decide
    | true => decide
  unfold etherCrcBit Crc.lsbStep
  simp only [hbit]

/-- The inner loop, as often as it is run, does the steps for as many zero bits. -/
theorem etherCrcBit_iterate (n : Nat) (crc : BitVec 32) :
    etherCrcBit^[n] crc = Crc.lsbRun 0xEDB88320 crc (List.replicate n false) := by
  induction n generalizing crc with
  | zero => rfl
  | succ n ih =>
    rw [Function.iterate_succ_apply, ih, etherCrcBit_eq, List.replicate_succ]
    rfl

/-- **One byte.**  Folding in a byte at once is folding in its bits one by one. -/
theorem etherCrcByte_eq (crc : BitVec 32) (byte : UInt8) :
    etherCrcByte crc byte
      = Crc.lsbRun 0xEDB88320 crc ((List.range 8).map byte.toBitVec.getLsbD) := by
  have hbits : (List.range 8).map (byte.toBitVec.setWidth 32).getLsbD
      = (List.range 8).map byte.toBitVec.getLsbD := by
    refine List.map_congr_left fun i hi => ?_
    have hlt : i < 32 := Nat.lt_trans (List.mem_range.mp hi) (by decide)
    rw [BitVec.getLsbD_setWidth, decide_eq_true hlt, Bool.true_and]
  have hout : byte.toBitVec.setWidth 32 >>> 8 = 0#32 := by
    apply BitVec.eq_of_getLsbD_eq
    intro i hi
    rw [BitVec.getLsbD_ushiftRight, BitVec.getLsbD_setWidth,
      BitVec.getLsbD_of_ge byte.toBitVec (8 + i) (by omega), Bool.and_false]
    exact (BitVec.getLsbD_zero).symm
  rw [etherCrcByte, etherCrcBit_iterate, Crc.lsbRun_xor, hbits, hout, BitVec.xor_zero]

/-- **All bytes.**  The register after them is that of the steps for the message, by induction on
    the bytes. -/
theorem foldl_etherCrcByte (data : List UInt8) (crc : BitVec 32) :
    data.foldl etherCrcByte crc = Crc.lsbRun 0xEDB88320 crc (messageBits data) := by
  induction data generalizing crc with
  | nil => rfl
  | cons byte data ih =>
    rw [List.foldl_cons, ih, etherCrcByte_eq]
    exact List.foldl_append.symm

/-- **`ether_crc` is the CRC of IEEE 802.3.** -/
theorem ether_crc_ieee (data : List UInt8) : etherCrc data = ieeeCrc data := by
  have hones : (0xFFFFFFFF : BitVec 32).reverse = BitVec.allOnes 32 := by decide +kernel
  have hdivide : (Crc.lsbRun 0xEDB88320 0xFFFFFFFF (messageBits data)).reverse
      = Crc.divide ieeeGenerator (BitVec.allOnes 32) (messageBits data) := by
    rw [Crc.lsbRun_reverse, reverse_constant, hones]
  have hregister : data.foldl etherCrcByte 0xFFFFFFFF
      = (Crc.divide ieeeGenerator (BitVec.allOnes 32) (messageBits data)).reverse := by
    rw [foldl_etherCrcByte, ← hdivide, BitVec.reverse_reverse_eq]
  rw [etherCrc, ieeeCrc, hregister, ← Crc.divide_eq]
  exact BitVec.xor_allOnes

/-- The check value: the CRC-32 of the digits from 1 to 9. -/
example : etherCrc [49, 50, 51, 52, 53, 54, 55, 56, 57] = 0xCBF43926 := by
  decide +kernel

end Ecos.Eth
