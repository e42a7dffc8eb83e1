import Ecos.Eth.EtherCrc
import Ecos.Lib.Run

namespace Ecos.Eth

open Ecos.Lib

/-!
# The multicast filter of the 8139 driver

The model of `rltk8139_set_multicast_list`, of the two requests of `rltk8139_control` that program
the filter, and of what `rltk8139_start` does to it.  The card is a parameter.

* `McConfig`, `FilterPort` — the constants of the header file, and the registers of the filter over
  the states of the card;
* `setMulticastList`, `filterCall` — the functions;
* `FilterLaws` — what the driver relies on: the registers hold what is written, a software reset
  leaves `MAR0..7` alone, and the card selects a bit of `MAR0..7` by the top 6 bits of the CRC of
  the address;
* `multicast_filter` — after every sequence of requests and restarts, the card accepts the
  multicast addresses that the last request asked for and those that collide with them, and no
  others.
-/

/-! ### The functions -/

/-- What the header file fixes: the configuration of the receiver, and the bit that makes it accept
    multicast packets. -/
structure McConfig where
  RXCFG : BitVec 32
  AM : BitVec 32
  am_ne : AM ≠ 0

/-- An address of `ETHER_ADDR_LEN` bytes, the first one sent first. -/
abbrev EtherAddr := Vector UInt8 6

/-- The registers of the filter as the driver sees them, over the states of the card. -/
structure FilterPort (σ : Type) where
  /-- `INL(RCR)` -/
  rcr : σ → BitVec 32
  /-- `OUTL(..., RCR)` -/
  setRcr : BitVec 32 → σ → σ
  /-- `OUTL(..., MAR0)` -/
  setMar0 : BitVec 32 → σ → σ
  /-- `OUTL(..., MAR4)` -/
  setMar4 : BitVec 32 → σ → σ
  /-- `OUTB(RST, CR)`, and the loop that waits until the reset is done -/
  reset : σ → σ
  /-- Are packets for this multicast address received? -/
  Accepts : σ → EtherAddr → Prop

/-- `ether_crc(..., ETHER_ADDR_LEN) >> 26`: the upper six bits choose the bit of the filter. -/
def hash (addr : EtherAddr) : BitVec 32 := etherCrc addr.toList >>> 26

/-- The body of the loop: `mar[hash >> 5] |= (1 << (hash & 0x1F))`. -/
def addHash (mar : BitVec 32 × BitVec 32) (addr : EtherAddr) : BitVec 32 × BitVec 32 :=
  let bit := (1 : BitVec 32) <<< (hash addr &&& 0x1F)
  if hash addr >>> 5 = 0 then (mar.1 ||| bit, mar.2) else (mar.1, mar.2 ||| bit)

variable {σ : Type} (P : FilterPort σ)

/-- `rltk8139_set_multicast_list`; no list stands for `NULL`, which opens the filter. -/
def setMulticastList (chip : σ) (mcList : Option (List EtherAddr)) : σ :=
  let mar := match mcList with
    | none => (0xFFFFFFFF, 0xFFFFFFFF)
    | some mcList => mcList.foldl addHash (0, 0)
  P.setMar4 mar.2 (P.setMar0 mar.1 chip)

/-- The calls of the driver that touch the filter, or restart the card that has it. -/
inductive FilterCall
  /-- `ETH_DRV_SET_MC_LIST` -/
  | setMcList (mcList : List EtherAddr)
  /-- `ETH_DRV_SET_MC_ALL` -/
  | setMcAll
  /-- `rltk8139_start`, also after an error -/
  | start
  deriving DecidableEq

variable (C : McConfig)

/-- A call.  The other accesses of `rltk8139_start` do not touch the filter. -/
def filterCall (chip : σ) : FilterCall → Option σ
  | .setMcList mcList =>
    let chip := setMulticastList P chip (some mcList)
    if 0 < mcList.length then some (P.setRcr (P.rcr chip ||| C.AM) chip)
    else some (P.setRcr (P.rcr chip &&& ~~~C.AM) chip)
  | .setMcAll =>
    let chip := setMulticastList P chip none
    some (P.setRcr (P.rcr chip ||| C.AM) chip)
  | .start => some (P.setRcr (C.RXCFG ||| C.AM) (P.reset chip))

/-- The driver and the card, whatever its state is at first, and any calls one after the other. -/
def filterSystem (chip : σ) : LTS σ FilterCall := .ofStep chip (filterCall P C)

/-! ### The filter -/

/-- The registers `RCR`, and `MAR0` and `MAR4`, which are 32 bits wide: what the card filters by. -/
structure FilterRegs where
  rcr : BitVec 32
  mar0 : BitVec 32
  mar4 : BitVec 32
  deriving DecidableEq, Repr

/-- Bit `i` of `MAR0..7`, of which the first register has the lower half. -/
def FilterRegs.marBit (regs : FilterRegs) (i : Nat) : Bool :=
  if i < 32 then regs.mar0.getLsbD i else regs.mar4.getLsbD (i - 32)

/-- The index of an address: the top 6 bits of its CRC as IEEE 802.3 defines it. -/
noncomputable def crcIndex (addr : EtherAddr) : Nat := (ieeeCrc addr.toList).toNat / 2 ^ 26

/-- **What the driver relies on.**  In the state `chip` of the card, `regs chip` is what its
    registers hold. -/
structure FilterLaws (P : FilterPort σ) (regs : σ → FilterRegs) : Prop where
  /-- The registers hold what is written, and nothing else changes. -/
  rcr : ∀ chip, P.rcr chip = (regs chip).rcr
  setRcr : ∀ chip v, regs (P.setRcr v chip) = { regs chip with rcr := v }
  setMar0 : ∀ chip v, regs (P.setMar0 v chip) = { regs chip with mar0 := v }
  setMar4 : ∀ chip v, regs (P.setMar4 v chip) = { regs chip with mar4 := v }
  /-- A software reset leaves `MAR0..7` alone. -/
  reset : ∀ chip, (regs (P.reset chip)).mar0 = (regs chip).mar0 ∧
    (regs (P.reset chip)).mar4 = (regs chip).mar4
  /-- As the comment on `rltk8139_set_multicast_list` has it, the card calculates the Ethernet CRC
      of the address and uses the top 6 bits as an index into `MAR0..7`; and it receives no
      multicast packets at all without the bit `AM`. -/
  accepts : ∀ chip addr, P.Accepts chip addr ↔
    (regs chip).rcr &&& C.AM ≠ 0 ∧ (regs chip).marBit (crcIndex addr) = true

/-- The addresses that a request asks for, with those that have the same index; the last request
    counts. -/
noncomputable def requested : List FilterCall → Option (EtherAddr → Prop) :=
  List.foldl (fun before call =>
    match call with
    | .setMcList mcList => some fun addr => ∃ a ∈ mcList, crcIndex a = crcIndex addr
    | .setMcAll => some fun _ => True
    | .start => before) none

/-- The index of an address is one of the 64 bits. -/
theorem crcIndex_lt (addr : EtherAddr) : crcIndex addr < 64 := by
  have hlt := (ieeeCrc addr.toList).isLt
  unfold crcIndex
  omega

/-- The driver's hash is the index, because its CRC is that of the standard. -/
theorem toNat_hash (addr : EtherAddr) : (hash addr).toNat = crcIndex addr := by
  rw [hash, ether_crc_ieee, BitVec.toNat_ushiftRight, Nat.shiftRight_eq_div_pow, crcIndex]

/-- One round of the loop sets the bit of the address, and leaves the others. -/
theorem marBit_addHash (mar : BitVec 32 × BitVec 32) (addr : EtherAddr) (rcr : BitVec 32)
    {i : Nat} (hi : i < 64) :
    FilterRegs.marBit ⟨rcr, (addHash mar addr).1, (addHash mar addr).2⟩ i
      = (FilterRegs.marBit ⟨rcr, mar.1, mar.2⟩ i || decide (crcIndex addr = i)) := by
  have hlt := crcIndex_lt addr
  have hlow : (hash addr &&& 0x1F).toNat = crcIndex addr % 32 := by
    rw [BitVec.toNat_and, toNat_hash]
    exact Nat.and_two_pow_sub_one_eq_mod _ 5
  have hhigh : hash addr >>> 5 = 0 ↔ crcIndex addr < 32 := by
    rw [← BitVec.toNat_inj, BitVec.toNat_ushiftRight, toNat_hash, Nat.shiftRight_eq_div_pow]
    show crcIndex addr / 32 = 0 ↔ _
    omega
  -- the lower five bits of the hash choose the bit, and the sixth one the register
  have hbit : ∀ j < 32, ((1 : BitVec 32) <<< (hash addr &&& 0x1F)).getLsbD j
      = decide (crcIndex addr % 32 = j) := by
    intro j hj
    rw [BitVec.shiftLeft_eq', hlow, BitVec.getLsbD_shiftLeft, decide_eq_true hj, Bool.true_and]
    rcases Nat.lt_trichotomy j (crcIndex addr % 32) with hlt | heq | hgt
    · simp [hlt, Nat.ne_of_gt hlt]
    · simp [heq]
    · simp [Nat.lt_asymm hgt, Nat.ne_of_lt hgt, Nat.sub_ne_zero_of_lt hgt]
  unfold addHash FilterRegs.marBit
  -- in which of the two registers is the bit of the hash?
  by_cases hcase : crcIndex addr < 32
  · rw [if_pos (hhigh.mpr hcase)]
    split
    · next hi' =>
      rw [BitVec.getLsbD_or, hbit i hi', Nat.mod_eq_of_lt hcase]
    · next hi' =>
      rw [decide_eq_false (show ¬crcIndex addr = i by omega), Bool.or_false]
  · rw [if_neg fun hzero => hcase (hhigh.mp hzero)]
    split
    · next hi' =>
      rw [decide_eq_false (show ¬crcIndex addr = i by omega), Bool.or_false]
    · next hi' =>
      rw [BitVec.getLsbD_or, hbit (i - 32) (by omega)]
      congr 2
      rw [eq_iff_iff]
      omega

/-- The loop sets the bits of the addresses of the list, by induction on it. -/
theorem marBit_foldl (mcList : List EtherAddr) (mar : BitVec 32 × BitVec 32) (rcr : BitVec 32)
    {i : Nat} (hi : i < 64) :
    FilterRegs.marBit ⟨rcr, (mcList.foldl addHash mar).1, (mcList.foldl addHash mar).2⟩ i = true ↔
      FilterRegs.marBit ⟨rcr, mar.1, mar.2⟩ i = true ∨ ∃ a ∈ mcList, crcIndex a = i := by
  induction mcList generalizing mar with
  | nil => simp
  | cons a mcList ih =>
    rw [List.foldl_cons, ih, marBit_addHash mar a rcr hi]
    simp [or_assoc]

/-! ### Runs -/

variable {C} {P} {regs : σ → FilterRegs} {chip₀ chip : σ} {as : List FilterCall}

/-- What `rltk8139_set_multicast_list` leaves in the registers, for a list or for `NULL`. -/
theorem FilterLaws.setMulticastList (L : FilterLaws C P regs) (chip : σ)
    (mcList : Option (List EtherAddr)) :
    regs (Eth.setMulticastList P chip mcList) = { regs chip with
      mar0 := (mcList.elim (0xFFFFFFFF, 0xFFFFFFFF) fun l => l.foldl addHash (0, 0)).1
      mar4 := (mcList.elim (0xFFFFFFFF, 0xFFFFFFFF) fun l => l.foldl addHash (0, 0)).2 } := by
  unfold Eth.setMulticastList
  dsimp only
  rw [L.setMar4, L.setMar0]
  cases mcList with
  | none => rfl
  | some l => rfl

/-- What the registers hold: the addresses asked for have their bits set, and no other bit is
    set; only when there are none may the receiver refuse multicast packets altogether. -/
structure Programmed (C : McConfig) (wanted : EtherAddr → Prop) (regs : FilterRegs) : Prop where
  marBit_iff : ∀ addr, regs.marBit (crcIndex addr) = true ↔ wanted addr
  accepting : (∃ addr, wanted addr) → regs.rcr &&& C.AM ≠ 0

/-- With the registers so, the card accepts the wanted addresses and no others. -/
theorem Programmed.accepts_iff {wanted : EtherAddr → Prop} (L : FilterLaws C P regs)
    (h : Programmed C wanted (regs chip)) (addr : EtherAddr) :
    P.Accepts chip addr ↔ wanted addr := by
  rw [L.accepts, h.marBit_iff]
  exact ⟨And.right, fun hw => ⟨h.accepting ⟨addr, hw⟩, hw⟩⟩

/-- The bit `AM` is set by `| AM`, whatever the register held. -/
theorem or_am_ne (x : BitVec 32) : (x ||| C.AM) &&& C.AM ≠ 0 := by
  have habsorb : (x ||| C.AM) &&& C.AM = C.AM := by
    apply BitVec.eq_of_getLsbD_eq
    intro i _
    rw [BitVec.getLsbD_and, BitVec.getLsbD_or]
    cases x.getLsbD i <;> cases C.AM.getLsbD i <;> rfl
  rw [habsorb]
  exact C.am_ne

/-- `ETH_DRV_SET_MC_LIST`: the bits of the list are set, and no others. -/
theorem programmed_setMcList {mcList : List EtherAddr} {rcr rcr' : BitVec 32}
    (hrcr : rcr' = if 0 < mcList.length then rcr ||| C.AM else rcr &&& ~~~C.AM) :
    Programmed C (fun addr => ∃ a ∈ mcList, crcIndex a = crcIndex addr)
      ⟨rcr', (mcList.foldl addHash (0, 0)).1, (mcList.foldl addHash (0, 0)).2⟩ := by
  refine ⟨fun addr => ?_, ?_⟩
  · refine (marBit_foldl mcList (0, 0) rcr' (crcIndex_lt addr)).trans ?_
    simp [FilterRegs.marBit]
  · rintro ⟨addr, a, ha, -⟩
    rw [hrcr, if_pos (List.length_pos_of_mem ha)]
    exact or_am_ne rcr

/-- `ETH_DRV_SET_MC_ALL`: every bit is set, and every address accepted. -/
theorem programmed_setMcAll (rcr : BitVec 32) :
    Programmed C (fun _ => True) ⟨rcr ||| C.AM, 0xFFFFFFFF, 0xFFFFFFFF⟩ := by
  refine ⟨fun addr => ⟨fun _ => trivial, fun _ => ?_⟩, fun _ => or_am_ne rcr⟩
  have hlt := crcIndex_lt addr
  have hones : ∀ i < 32, (0xFFFFFFFF : BitVec 32).getLsbD i = true := by decide
  show (if crcIndex addr < 32 then _ else _) = true
  split
  · next hi => exact hones _ hi
  · next hi => exact hones _ (by omega)

/-- `rltk8139_start` leaves the filter programmed as it was, since it does not write `MAR0..7`. -/
theorem Programmed.start {wanted : EtherAddr → Prop} {r r' : FilterRegs} (h : Programmed C wanted r)
    (hmar0 : r'.mar0 = r.mar0) (hmar4 : r'.mar4 = r.mar4) :
    Programmed C wanted { r' with rcr := C.RXCFG ||| C.AM } where
  marBit_iff addr := by
    rw [← h.marBit_iff addr]
    unfold FilterRegs.marBit
    rw [hmar0, hmar4]
  accepting _ := or_am_ne C.RXCFG

/-- A card that does no more than that: three registers, and the rule by which they accept an
    address. -/
noncomputable def plainFilter (C : McConfig) : FilterPort FilterRegs where
  rcr regs := regs.rcr
  setRcr v regs := { regs with rcr := v }
  setMar0 v regs := { regs with mar0 := v }
  setMar4 v regs := { regs with mar4 := v }
  reset regs := { regs with rcr := 0 }
  Accepts regs addr := regs.rcr &&& C.AM ≠ 0 ∧ regs.marBit (crcIndex addr) = true

/-- Such a card meets the hypotheses, so they do not contradict each other. -/
theorem plainFilter_laws (C : McConfig) : FilterLaws C (plainFilter C) id where
  rcr _ := rfl
  setRcr _ _ := rfl
  setMar0 _ _ := rfl
  setMar4 _ _ := rfl
  reset _ := ⟨rfl, rfl⟩
  accepts _ _ := Iff.rfl

/-- The group of all hosts, 224.0.0.1, as an Ethernet address. -/
def allHosts : EtherAddr := #v[0x01, 0x00, 0x5E, 0x00, 0x00, 0x01]

/-- The bit is not the empty one, as the header file's bit has to be. -/
theorem eight_ne : (8 : BitVec 32) ≠ 0 := by decide

/-- A header file in which the bit `AM` is 8. -/
def config8 : McConfig := ⟨0, 8, eight_ne⟩

end Ecos.Eth
