import Ecos.Eth.ReceiveChip
import Ecos.Lib.Run
import Mathlib.Data.List.ModifyLast

namespace Ecos.Eth

open Ecos.Lib

/-!
# The receive ring of the 8139 driver

The model of the receive part of `rltk8139_deliver` and of `rltk8139_recv`, with a card on the
other side of the ring that stores frames at any time, also in the middle of a call.

* `RxState`, `rxCall` — where the driver is in `rltk8139_deliver`, and its steps, one function;
* `rxSystem` — the driver and the card, which takes steps of its own;
* `RxEpoch`, `rxEpochs` — what a run stores and hands over, from one start of the card to the next;
* `RxInv` — what the driver knows of the ring at each place of the loop;
* `rx_fifo` — between two starts of the card the frames stored are the ones handled and then those
  left in the ring; each of the first ones that was received without an error was announced once,
  in order, with its length and its data;
* `rx_announced` — outside of `rltk8139_deliver`, no such frame is in the ring without an
  interrupt that is still to be handled.

The transmit part of `rltk8139_deliver`, which touches nothing of this, is left out, and so are the
interrupt masks.
-/

/-! ### The driver -/

/-- `struct eth_drv_sg`: a buffer of the network stack, 0 for one to be skipped. -/
structure EthDrvSg where
  buf : Nat
  len : Nat
  deriving DecidableEq, Repr

/-- Where the driver is in `rltk8139_deliver`: between any two of its accesses the card may store a
    frame. -/
inductive RxPc
  | idle
  /-- `status` was read from `ISR`. -/
  | ack (status : IntStatus)
  /-- At the head of the receive loop. -/
  | test (status : IntStatus) (rxPos : BitVec 16)
  /-- In the loop: the ring is not empty. -/
  | header (status : IntStatus) (rxPos : BitVec 16)
  /-- The header was read; a frame that is `ok` was announced. -/
  | body (status : IntStatus) (rxPos : BitVec 16) (length : BitVec 32) (ok : Bool)
  /-- Behind the loop. -/
  | tail (status : IntStatus)
  deriving DecidableEq, Repr

/-- The card, the fields of `Rltk8139_t` that the receiver uses, and the driver's place. -/
structure RxState (σ : Type) where
  chip : σ
  /-- `rx_current`, as an index into `rx_ring` -/
  rxCurrent : Nat
  /-- `rx_size` -/
  rxSize : BitVec 32
  pc : RxPc

variable (C : RxConfig)

/-- `rltk8139_recv`: what is copied to where, from the frame on as far as the buffers reach. -/
def recv (ring : Nat → UInt8) : Nat → List EthDrvSg → List (Nat × List UInt8)
  | _, [] => []
  | rxBuffer, sg :: sgList =>
    if sg.buf ≠ 0 then
      (sg.buf, slice ring rxBuffer sg.len) :: recv ring (rxBuffer + sg.len) sgList
    else recv ring rxBuffer sgList

/-- `rx_pos = ((rx_pos + length + 8 + 3) & ~3) % RX_BUF_LEN` -/
def nextRxPos (rxPos : BitVec 16) (length : BitVec 32) : BitVec 16 :=
  (((rxPos.setWidth 32 + length + 8 + 3) &&& ~~~(3 : BitVec 32)) %
    BitVec.ofNat 32 (2 ^ C.exp)).setWidth 16

/-- `(rx_pos - 16) % RX_BUF_LEN`, which is negative at the start of the ring. -/
def caprOf (rxPos : BitVec 16) : BitVec 16 :=
  BitVec.ofInt 16 (((rxPos.toNat : Int) - 16).tmod (2 ^ C.exp : Nat))

/-- What the card and the driver do, access by access. -/
inductive RxCall
  /-- The card does something on its own, and may store a frame. -/
  | own (stored : Option Frame)
  /-- `rltk8139_deliver`, from one access to the card to the next. -/
  | readIsr
  | ackIsr
  | test
  | header
  | recv (sgList : List EthDrvSg)
  | advance
  | finish
  /-- `rltk8139_start` -/
  | start

/-- What the network stack sees: the announcement of a frame, and what it is given of it. -/
inductive RxEvent
  | none
  /-- The callback `recv` of the network stack. -/
  | announced (length : BitVec 32)
  | copied (pieces : List (Nat × List UInt8))
  /-- The card was restarted. -/
  | restarted
  deriving DecidableEq, Repr

variable {σ : Type} (P : RxPort σ)

/-- The place that `CAPR` stands for: the register lies 16 bytes behind. -/
def readPlace (chip : σ) : Nat := ((P.capr chip).toNat + 16) % 2 ^ C.exp

/-- `rltk8139_reset`, at the end of `rltk8139_deliver`, when the receive buffer has overflowed. -/
def RxState.reset (s : RxState σ) : RxState σ :=
  { s with chip := rltk8139Reset C P s.chip, pc := .idle }

/-- A step of the driver, from one access to the card to the next. -/
def rxCall (s : RxState σ) : RxCall → Option (RxEvent × RxState σ)
  | .own _ => none
  | .readIsr =>
    match s.pc with
    | .idle => some (.none, { s with pc := .ack (P.isr s.chip) })
    | _ => none
  | .ackIsr =>
    match s.pc with
    | .ack status =>
      let s := { s with chip := P.setIsr status s.chip }
      if status.serr then some (.restarted, s.reset C P)
      else if status.rok then
        some (.none, { s with pc := .test status (BitVec.ofNat 16 (readPlace C P s.chip)) })
      else some (.none, { s with pc := .tail status })
    | _ => none
  | .test =>
    match s.pc with
    | .test status rxPos =>
      if P.bufe s.chip then some (.none, { s with pc := .tail status })
      else some (.none, { s with pc := .header status rxPos })
    | _ => none
  | .header =>
    match s.pc with
    | .header status rxPos =>
      let header := le32 (P.ring s.chip) rxPos.toNat
      if header >>> 16 = 0xFFF0 then some (.none, { s with pc := .tail status })
      else
        let length := (header >>> 16) - 4
        if header &&& C.HDR_ROK = 0 then
          some (.none, { s with pc := .body status rxPos length false })
        else
          some (.announced length, { s with
            rxCurrent := rxPos.toNat + 4
            rxSize := length
            pc := .body status rxPos length true })
    | _ => none
  | .recv sgList =>
    match s.pc with
    | .body _ _ _ true => some (.copied (recv (P.ring s.chip) s.rxCurrent sgList), s)
    | _ => none
  | .advance =>
    match s.pc with
    | .body status rxPos length _ =>
      let rxPos := nextRxPos C rxPos length
      some (.none, { s with chip := P.setCapr (caprOf C rxPos) s.chip, pc := .test status rxPos })
    | _ => none
  | .finish =>
    match s.pc with
    | .tail status =>
      if status.rxovw ∨ status.fovw then some (.restarted, s.reset C P)
      else some (.none, { s with pc := .idle })
    | _ => none
  | .start =>
    match s.pc with
    | .idle => some (.restarted, { s with chip := rltk8139Start C P s.chip })
    | _ => none

/-- The driver and the card, whatever its state was before it was started. -/
def rxSystem (chip : σ) : LTS (RxState σ) (RxCall × RxEvent) where
  init s := s = ⟨rltk8139Start C P chip, 0, 0, .idle⟩
  step s a s' := match a.1 with
    | .own stored => a.2 = .none ∧ ∃ chip, P.own s.chip stored chip ∧ s' = { s with chip }
    | c => rxCall C P s c = some (a.2, s')

/-! ### What a run stores and hands over -/

/-- The length that was announced for a frame, and the calls of `rltk8139_recv` that followed. -/
abbrev Delivery := BitVec 32 × List (List EthDrvSg × List (Nat × List UInt8))

/-- The frames stored, and the deliveries, between two starts of the card. -/
structure RxEpoch where
  stored : List Frame
  deliveries : List Delivery

/-- What a step adds: a frame that is stored, one that is announced, or bytes that are copied. -/
def RxEpoch.next (t : RxEpoch) : RxCall × RxEvent → RxEpoch
  | (.own stored, _) => { t with stored := t.stored ++ stored.toList }
  | (_, .announced length) => { t with deliveries := t.deliveries ++ [(length, [])] }
  | (.recv sgList, .copied pieces) =>
    { t with deliveries := t.deliveries.modifyLast fun d => (d.1, d.2 ++ [(sgList, pieces)]) }
  | _ => t

/-- The epochs that are over, and the one now: a start of the card begins another one. -/
def RxEpoch.step (ts : List RxEpoch × RxEpoch) (a : RxCall × RxEvent) : List RxEpoch × RxEpoch :=
  if a.2 = .restarted then (ts.1 ++ [ts.2], ⟨[], []⟩) else (ts.1, ts.2.next a)

/-- What a run has stored and handed over, epoch by epoch; the last one is still under way. -/
def rxEpochs (as : List (RxCall × RxEvent)) : List RxEpoch × RxEpoch :=
  as.foldl RxEpoch.step ([], ⟨[], []⟩)

/-- The number of bytes that fill the buffers of a list. -/
def sgLength (sgList : List EthDrvSg) : Nat := ((sgList.filter (·.buf ≠ 0)).map (·.len)).sum

/-- The delivery hands over the frame: its length without the CRC, and its data from the first
    byte on into the buffers of each list. -/
def Delivers (f : Frame) (d : Delivery) : Prop :=
  d.1.toNat + 4 = f.body.length ∧ ∀ c ∈ d.2, sgLength c.1 ≤ f.body.length →
    c.2.flatMap Prod.snd = f.body.take (sgLength c.1)

/-- The driver has come to the first frames of the epoch; of these, it has handed over those that
    were received without an error, once each and in order. -/
def RxEpoch.Served (t : RxEpoch) : Prop :=
  ∃ done left, t.stored = done ++ left ∧
    List.Forall₂ Delivers (done.filter (C.Ok ·)) t.deliveries

variable {C} {P} {frames : σ → List Frame} {place : σ → Nat} {s s' : RxState σ} {chip chip' : σ}
  {t : RxEpoch} {f : Frame} {done cur q fs : List Frame} {r : Nat} {e : RxEvent}

/-! ### The invariant -/

/-- No frame without an error waits for the driver unless one of the bits `rok` says so. -/
def Noticed (C : RxConfig) (q : List Frame) (rok : Bool) : Prop := ∀ f ∈ q, C.Ok f → rok = true

/-- What the driver knows at each place: `cur` is the frame that it is at, and `q` are the ones
    behind it; the first of them is at `r`. -/
def AtPc (C : RxConfig) (P : RxPort σ) (s : RxState σ) (cur q : List Frame) (r : Nat) : Prop :=
  match s.pc with
  | .idle => cur = [] ∧ Noticed C q (P.isr s.chip).rok
  | .ack status => cur = [] ∧ Noticed C q (status.rok || (P.isr s.chip).rok)
  | .test _ rxPos => cur = [] ∧ rxPos.toNat = r % 2 ^ C.exp
  | .header _ rxPos => cur = [] ∧ rxPos.toNat = r % 2 ^ C.exp ∧
      (q = [] → Marked (P.ring s.chip) (r % 2 ^ C.exp))
  | .body _ rxPos length ok => ∃ f, cur = [f] ∧ rxPos.toNat = r % 2 ^ C.exp ∧
      length = BitVec.ofNat 32 f.body.length - 4 ∧ (ok = true ↔ C.Ok f) ∧
      (ok = true → s.rxCurrent = rxPos.toNat + 4)
  | .tail _ => cur = [] ∧ Noticed C q (P.isr s.chip).rok

/-- **The invariant.**  The frames stored in this epoch are the ones that were passed, the one that
    the driver is at, and those behind it; and those of them without an error were delivered. -/
structure RxInv (C : RxConfig) (P : RxPort σ) (frames : σ → List Frame) (place : σ → Nat)
    (t : RxEpoch) (s : RxState σ) (done cur q : List Frame) : Prop where
  frames_eq : frames s.chip = cur ++ q
  aligned : 4 ∣ place s.chip
  atPc : AtPc C P s cur q (place s.chip)
  stored : t.stored = done ++ cur ++ q
  delivered : List.Forall₂ Delivers ((done ++ cur).filter (C.Ok ·)) t.deliveries

/-- Some frames have been passed, and the driver is at one of the others or at none. -/
def Receiving (C : RxConfig) (P : RxPort σ) (frames : σ → List Frame) (place : σ → Nat)
    (t : RxEpoch) (s : RxState σ) : Prop := ∃ done cur q, RxInv C P frames place t s done cur q

/-- What was stored since the last reset was served in order, up to what is still in the ring. -/
theorem RxInv.served (h : RxInv C P frames place t s done cur q) : t.Served C :=
  ⟨done ++ cur, q, h.stored, h.delivered⟩

/-! ### Words and places -/

/-- The length in the header is that of the frame with its CRC. -/
theorem header_length (f : Frame) : f.header >>> 16 = BitVec.ofNat 32 f.body.length := by
  have hlt := f.length_lt
  apply BitVec.eq_of_toNat_eq
  rw [BitVec.toNat_ushiftRight, Frame.header, BitVec.toNat_append, Nat.shiftRight_or_distrib,
    Nat.shiftLeft_shiftRight, Nat.shiftRight_eq_div_pow f.status.toNat,
    Nat.div_eq_of_lt f.status.isLt, Nat.or_zero, BitVec.toNat_ofNat, BitVec.toNat_ofNat]
  omega

/-- The length in the header of a frame is not the mark of an unfinished one. -/
theorem header_length_ne (f : Frame) : f.header >>> 16 ≠ 0xFFF0 := by
  have hlt := f.length_lt
  rw [header_length]
  intro heq
  have hnat := congrArg BitVec.toNat heq
  rw [BitVec.toNat_ofNat, Nat.mod_eq_of_lt (by omega)] at hnat
  have hconst : (0xFFF0 : BitVec 32).toNat = 0xFFF0 := rfl
  omega

/-- `& ~3` rounds down to a multiple of four. -/
theorem toNat_and_not_three (x : BitVec 32) :
    (x &&& ~~~(3 : BitVec 32)).toNat = x.toNat / 4 * 4 := by
  have hx := x.isLt
  have hsplit : x &&& ~~~(3 : BitVec 32) = (x >>> 2) <<< 2 := by
    apply BitVec.eq_of_getLsbD_eq
    intro i hi
    rw [BitVec.getLsbD_and, BitVec.getLsbD_shiftLeft, BitVec.getLsbD_ushiftRight]
    rcases Nat.lt_or_ge i 2 with hlt | hge
    · obtain rfl | rfl : i = 0 ∨ i = 1 := by omega
      · simp
      · simp
    · have h3 : (3 : BitVec 32).getLsbD i = false :=
        Nat.testBit_lt_two_pow (Nat.lt_of_lt_of_le (by decide)
          (Nat.pow_le_pow_right (by decide) hge))
      rw [BitVec.getLsbD_not, h3]
      simp [hi, show ¬i < 2 by omega, show 2 + (i - 2) = i by omega]
  rw [hsplit, BitVec.toNat_shiftLeft, BitVec.toNat_ushiftRight, Nat.shiftRight_eq_div_pow,
    Nat.shiftLeft_eq]
  omega

/-- The driver's next position is behind the frame, modulo the size of the ring. -/
theorem nextRxPos_eq {rxPos : BitVec 16} (h : rxPos.toNat = r % 2 ^ C.exp) (hr : 4 ∣ r)
    (f : Frame) : (nextRxPos C rxPos (BitVec.ofNat 32 f.body.length - 4)).toNat
      = (r + frameFormat.size f) % 2 ^ C.exp := by
  have hlen := f.length_lt
  have hpos := rxPos.isLt
  have hsize : (2 : Nat) ^ C.exp < 2 ^ 32 := Nat.lt_of_le_of_lt C.le_size (by decide)
  have hmod : 4 ∣ rxPos.toNat := by
    rw [h]
    exact (Nat.dvd_mod_iff C.four_dvd).mpr hr
  have hsum : (rxPos.setWidth 32 + (BitVec.ofNat 32 f.body.length - 4) + 8 + 3).toNat
      = rxPos.toNat + (f.body.length + 7) := by
    have h4 : (4 : BitVec 32).toNat = 4 := rfl
    have h8 : (8 : BitVec 32).toNat = 8 := rfl
    have h3 : (3 : BitVec 32).toNat = 3 := rfl
    rw [BitVec.toNat_add, BitVec.toNat_add, BitVec.toNat_add, BitVec.toNat_sub,
      BitVec.toNat_setWidth, BitVec.toNat_ofNat, h4, h8, h3]
    omega
  rw [nextRxPos, BitVec.toNat_setWidth, BitVec.toNat_umod, toNat_and_not_three, hsum,
    BitVec.toNat_ofNat, Nat.mod_eq_of_lt hsize, Nat.mod_eq_of_lt (b := 2 ^ 16)]
  · have hround : (rxPos.toNat + (f.body.length + 7)) / 4 * 4
        = rxPos.toNat + (f.body.length + 7) / 4 * 4 := by omega
    rw [hround, h, Nat.mod_add_mod]
    rfl
  · exact Nat.lt_of_lt_of_le (Nat.mod_lt _ C.pos) C.le_size

/-- `CAPR` stands for the position that it is computed from. -/
theorem readPlace_caprOf (rxPos : BitVec 16) :
    ((caprOf C rxPos).toNat + 16) % 2 ^ C.exp = rxPos.toNat % 2 ^ C.exp := by
  obtain ⟨m, hm⟩ := C.dvd
  generalize hL : 2 ^ C.exp = L at hm ⊢
  generalize hi : ((rxPos.toNat : Int) - 16).tmod (L : Nat) = i
  have htmod := Int.tmod_add_mul_tdiv ((rxPos.toNat : Int) - 16) (L : Nat)
  have hnonneg : 0 ≤ i % 65536 := Int.emod_nonneg _ (by decide)
  have hdiv := Int.emod_add_mul_ediv i 65536
  have hcapr : ((caprOf C rxPos).toNat : Int) = i % 65536 := by
    rw [caprOf, hL, hi, BitVec.toNat_ofInt]
    exact Int.toNat_of_nonneg hnonneg
  have hdvd : (L : Int) ∣ ((caprOf C rxPos).toNat + 16 : Nat) - (rxPos.toNat : Int) := by
    refine ⟨-(((rxPos.toNat : Int) - 16).tdiv L) - m * (i / 65536), ?_⟩
    have hm' : (65536 : Int) = L * m := by exact_mod_cast hm
    have hmul : (65536 : Int) * (i / 65536) = L * (m * (i / 65536)) := by rw [hm', mul_assoc]
    have hrhs : (L : Int) * (-(((rxPos.toNat : Int) - 16).tdiv L) - m * (i / 65536))
        = -(L * ((rxPos.toNat : Int) - 16).tdiv L) - L * (m * (i / 65536)) := by
      rw [Int.mul_sub, Int.mul_neg]
    push_cast
    rw [hcapr, hrhs]
    omega
  exact_mod_cast Int.emod_eq_emod_iff_emod_sub_eq_zero.mpr (Int.emod_eq_zero_of_dvd hdvd)

/-- What the first frame of the ring reads as: its header, and its bytes behind it. -/
theorem RxLaws.front (L : RxLaws C P frames place) (hfs : frames chip = f :: fs) :
    le32 (P.ring chip) (place chip % 2 ^ C.exp) = f.header ∧ ∀ n ≤ f.body.length,
      slice (P.ring chip) (place chip % 2 ^ C.exp + 4) n = f.body.take n := by
  have hlen : (frameFormat.bytes f).length = 4 + f.body.length := by
    show (le32Bytes f.header ++ f.body).length = _
    rw [List.length_append]
    rfl
  obtain ⟨w, hlogged⟩ := L.logged chip
  rw [hfs] at hlogged
  constructor
  · have hword := hlogged.front (i := 0) (n := 4) (by omega)
    exact le32_of_slice hword
  · intro n hn
    exact hlogged.front (i := 4) (by omega)

/-- The last element of a list that corresponds to one with a last element. -/
theorem forall₂_snoc {α β : Type} {R : α → β → Prop} {l : List α} {a : α} {m : List β}
    (h : List.Forall₂ R (l ++ [a]) m) : ∃ ms b, m = ms ++ [b] ∧ List.Forall₂ R l ms ∧ R a b := by
  have hrev := List.forall₂_reverse_iff.mpr h
  rw [List.reverse_append] at hrev
  obtain ⟨b, ms, hab, hms, heq⟩ := List.forall₂_cons_left_iff.mp hrev
  refine ⟨ms.reverse, b, ?_, List.forall₂_reverse_iff.mp (by rwa [List.reverse_reverse]), hab⟩
  rw [← List.reverse_reverse m, heq, List.reverse_cons]

/-- `rltk8139_recv` copies what lies from `rx_current` on. -/
theorem recv_flatMap (ring : Nat → UInt8) (p : Nat) (sgList : List EthDrvSg) :
    (recv ring p sgList).flatMap Prod.snd = slice ring p (sgLength sgList) := by
  induction sgList generalizing p with
  | nil => rfl
  | cons sg sgList ih =>
    rw [recv]
    split
    · next hbuf =>
      have hsum : sgLength (sg :: sgList) = sg.len + sgLength sgList := by
        simp [sgLength, hbuf]
      rw [List.flatMap_cons, ih, hsum, ← slice_append]
    · next hbuf =>
      have hsum : sgLength (sg :: sgList) = sgLength sgList := by
        simp only [not_not] at hbuf
        simp [sgLength, hbuf]
      rw [ih, hsum]

/-! ### One step -/

/-- A frame that was noticed stays noticed when the interrupt bit is set in addition. -/
theorem Noticed.mono {b b' : Bool} (h : Noticed C q b) (hb : b = true → b' = true) :
    Noticed C q b' :=
  fun f hf hok => hb (h f hf hok)

/-- Without frames there is nothing to notice, whatever the interrupt bit says. -/
theorem noticed_nil (b : Bool) : Noticed C [] b := fun f hf => by cases hf

/-- A frame that is stored is noticed when the others are, since the card sets its bit with it. -/
theorem Noticed.store {b b' : Bool} {stored : Option Frame} (h : Noticed C q b)
    (hb : b = true → b' = true) (hstored : ∀ f ∈ stored, C.Ok f → b' = true) :
    Noticed C (q ++ stored.toList) b' := by
  intro g hg hok
  rcases List.mem_append.mp hg with hold | hnew
  · exact hb (h g hold hok)
  · exact hstored g (Option.mem_toList.mp hnew) hok

section Step

variable (L : RxLaws C P frames place)

include L

/-- The card was started, and a new epoch begins with an empty ring. -/
theorem RxLaws.restarted (s : RxState σ) (hpc : s.pc = .idle)
    (hchip : ∃ chip, s.chip = rltk8139Start C P chip) :
    Receiving C P frames place ⟨[], []⟩ s := by
  obtain ⟨chip, hchip⟩ := hchip
  obtain ⟨hframes, hplace⟩ := L.start C chip
  rw [← hchip] at hframes hplace
  refine ⟨[], [], [], hframes, ?_, ?_, rfl, .nil⟩
  · rw [hplace]
    exact Nat.dvd_zero 4
  · rw [AtPc, hpc]
    exact ⟨rfl, noticed_nil _⟩

/-- **A step of the card**: the driver stays where it is, and a frame stored is the last in the
    ring. -/
theorem RxInv.own_step (h : RxInv C P frames place t s done cur q) {stored : Option Frame}
    (hown : P.own s.chip stored chip') :
    RxInv C P frames place (t.next (.own stored, e)) { s with chip := chip' } done cur
      (q ++ stored.toList) := by
  obtain ⟨hframes, hplace, hrok, hstored⟩ := L.own _ _ _ hown
  have hnotice : ∀ b, Noticed C q (b || (P.isr s.chip).rok) →
      Noticed C (q ++ stored.toList) (b || (P.isr chip').rok) := by
    intro b hq
    refine hq.store (fun hset => ?_) fun f hf hok => ?_
    · rw [Bool.or_eq_true] at hset ⊢
      exact hset.imp_right hrok
    · rw [hstored f hf hok, Bool.or_true]
  refine ⟨?_, hplace ▸ h.aligned, ?_, ?_, h.delivered⟩
  · rw [show frames chip' = _ from hframes, h.frames_eq, List.append_assoc]
  · have hat := h.atPc
    have hfs := h.frames_eq
    show AtPc C P { s with chip := chip' } cur (q ++ stored.toList) (place chip')
    rw [hplace]
    obtain ⟨chip, rxCurrent, rxSize, pc⟩ := s
    cases pc with
    | idle => exact ⟨hat.1, hnotice false hat.2⟩
    | ack status => exact ⟨hat.1, hnotice status.rok hat.2⟩
    | test status rxPos => exact hat
    | header status rxPos =>
      obtain ⟨rfl, hpos, hmark⟩ := hat
      refine ⟨rfl, hpos, fun hnil => ?_⟩
      -- there is still no frame, so the mark is where it was
      obtain ⟨rfl, hnone⟩ := List.append_eq_nil_iff.mp hnil
      cases stored with
      | none => exact L.mark _ _ hown hfs (hmark rfl)
      | some f => cases hnone
    | body status rxPos length ok => exact hat
    | tail status => exact ⟨hat.1, hnotice false hat.2⟩
  · show t.stored ++ stored.toList = _
    rw [h.stored, List.append_assoc]

/-- `INW(ISR)` and the write that acknowledges the bits: a frame that comes between is still
    noticed. -/
theorem RxInv.ackIsr_step (h : RxInv C P frames place t s done cur q)
    (hs : rxCall C P s .ackIsr = some (e, s')) :
    e = .restarted ∧ Receiving C P frames place ⟨[], []⟩ s' ∨
      e = .none ∧ Receiving C P frames place t s' := by
  obtain ⟨hframes, haligned, hpc, hstored, hdelivered⟩ := h
  obtain ⟨chip, rxCurrent, rxSize, pc⟩ := s
  cases pc with
  | ack status =>
    obtain ⟨rfl, hnotice⟩ := hpc
    obtain ⟨hsame, hplace, hrok⟩ := L.setIsr chip status
    have hframes' : frames (P.setIsr status chip) = [] ++ q := hsame.trans hframes
    have haligned' : 4 ∣ place (P.setIsr status chip) := hplace ▸ haligned
    simp only [rxCall] at hs
    split at hs
    · cases hs
      exact .inl ⟨rfl, L.restarted _ rfl ⟨_, rfl⟩⟩
    split at hs
    · cases hs
      refine .inr ⟨rfl, done, [], q, hframes', haligned', ⟨rfl, ?_⟩, hstored, hdelivered⟩
      show (BitVec.ofNat 16 (readPlace C P (P.setIsr status chip))).toNat = _
      rw [BitVec.toNat_ofNat, readPlace, L.capr]
      exact Nat.mod_eq_of_lt (Nat.lt_of_lt_of_le (Nat.mod_lt _ C.pos) C.le_size)
    · next hset =>
      cases hs
      -- the bit was not set when it was read, so it is not cleared
      refine .inr ⟨rfl, done, [], q, hframes', haligned', ⟨rfl, hnotice.mono ?_⟩, hstored,
        hdelivered⟩
      show (status.rok || (P.isr chip).rok) = true → (P.isr (P.setIsr status chip)).rok = true
      rw [hrok]
      simp [hset]
  | _ => cases hs

/-- The driver looks at the buffer-empty bit, and ends its loop only with an empty ring. -/
theorem RxInv.test_step (h : RxInv C P frames place t s done cur q)
    (hs : rxCall C P s .test = some (e, s')) :
    e = .none ∧ Receiving C P frames place t s' := by
  obtain ⟨hframes, haligned, hpc, hstored, hdelivered⟩ := h
  obtain ⟨chip, rxCurrent, rxSize, pc⟩ := s
  cases pc with
  | test status rxPos =>
    obtain ⟨rfl, hpos⟩ := hpc
    simp only [rxCall] at hs
    split at hs
    · next hbufe =>
      cases hs
      refine ⟨rfl, done, [], q, hframes, haligned, ⟨rfl, ?_⟩, hstored, hdelivered⟩
      rw [show q = [] from hframes.symm.trans (L.bufe chip hbufe)]
      exact noticed_nil _
    · next hbufe =>
      cases hs
      refine ⟨rfl, done, [], q, hframes, haligned, ⟨rfl, hpos, fun hq => ?_⟩, hstored, hdelivered⟩
      exact L.copying chip (by simpa using hbufe) (hframes.trans hq)
  | _ => cases hs

/-- The header is that of the first frame, unless the card has only begun to copy one. -/
theorem RxInv.header_step (h : RxInv C P frames place t s done cur q)
    (hs : rxCall C P s .header = some (e, s')) :
    e ≠ .restarted ∧ Receiving C P frames place (t.next (.header, e)) s' := by
  obtain ⟨hframes, haligned, hpc, hstored, hdelivered⟩ := h
  obtain ⟨chip, rxCurrent, rxSize, pc⟩ := s
  cases pc with
  | header status rxPos =>
    obtain ⟨rfl, hpos, hempty⟩ := hpc
    simp only [rxCall] at hs
    cases q with
    | nil =>
      -- without a frame in the ring the driver finds the mark of an unfinished one
      have hmark : le32 (P.ring chip) rxPos.toNat >>> 16 = 0xFFF0 := by
        rw [hpos]
        exact hempty rfl
      rw [if_pos hmark] at hs
      cases hs
      exact ⟨by rintro ⟨⟩, done, [], [], hframes, haligned, ⟨rfl, noticed_nil _⟩, hstored,
        hdelivered⟩
    | cons f q =>
      have hword : le32 (P.ring chip) rxPos.toNat = f.header := by
        rw [hpos]
        exact (L.front hframes).1
      rw [hword, if_neg (header_length_ne f)] at hs
      have hlength := header_length f
      have hsplit : t.stored = done ++ [f] ++ q := by
        rw [hstored, List.append_nil, List.append_assoc]
        rfl
      rw [List.append_nil] at hdelivered
      split at hs
      · next hbit =>
        -- a frame with an error is skipped: nothing is delivered for it
        have hok : ¬C.Ok f := fun hne => hne hbit
        cases hs
        refine ⟨by rintro ⟨⟩, done, [f], q, hframes, haligned,
          ⟨f, rfl, hpos, by rw [hlength], by simp [hok], by simp⟩, hsplit, ?_⟩
        rw [List.filter_append, List.filter_singleton, decide_eq_false hok]
        show List.Forall₂ Delivers (_ ++ []) t.deliveries
        rwa [List.append_nil]
      · next hbit =>
        -- a good frame is announced with the length in its header, less the four bytes of the CRC
        have hok : C.Ok f := hbit
        have hmem : f ∈ frames chip := by
          rw [show frames chip = f :: q from hframes]
          exact List.mem_cons_self
        have hlen := L.sound chip f hmem hok
        have hlt := f.length_lt
        cases hs
        refine ⟨by rintro ⟨⟩, done, [f], q, hframes, haligned,
          ⟨f, rfl, hpos, by rw [hlength], by simp [hok], fun _ => rfl⟩, hsplit, ?_⟩
        rw [List.filter_append, List.filter_singleton, decide_eq_true hok]
        refine List.rel_append hdelivered (.cons ⟨?_, ?_⟩ .nil)
        · show (f.header >>> 16 - 4).toNat + 4 = f.body.length
          rw [hlength, BitVec.toNat_sub, BitVec.toNat_ofNat]
          show (2 ^ 32 - 4 + f.body.length % 2 ^ 32) % 2 ^ 32 + 4 = f.body.length
          omega
        · rintro c ⟨⟩
  | _ => cases hs

/-- The stack has taken a frame, the first of the ring. -/
theorem RxInv.recv_step (h : RxInv C P frames place t s done cur q) {sgList : List EthDrvSg}
    (hs : rxCall C P s (.recv sgList) = some (e, s')) :
    e ≠ .restarted ∧ Receiving C P frames place (t.next (.recv sgList, e)) s' := by
  obtain ⟨hframes, haligned, hpc, hstored, hdelivered⟩ := h
  obtain ⟨chip, rxCurrent, rxSize, pc⟩ := s
  cases pc with
  | body status rxPos length ok =>
    cases ok with
    | false => cases hs
    | true =>
      obtain ⟨f, rfl, hpos, hlength, hok, hcurrent⟩ := hpc
      cases hs
      have hf := hok.mp rfl
      refine ⟨by rintro ⟨⟩, done, [f], q, hframes, haligned,
        ⟨f, rfl, hpos, hlength, hok, hcurrent⟩, hstored, ?_⟩
      -- the frame under way is the last one announced: what was taken of it is added there
      rw [List.filter_append, List.filter_singleton, decide_eq_true hf] at hdelivered ⊢
      obtain ⟨ds, d, heq, hds, hd⟩ := forall₂_snoc hdelivered
      show List.Forall₂ Delivers _ (t.deliveries.modifyLast _)
      rw [heq, List.modifyLast_concat]
      refine List.rel_append hds (.cons ⟨hd.1, ?_⟩ .nil)
      intro c hc hle
      rcases List.mem_append.mp hc with hold | hnew
      · exact hd.2 c hold hle
      · cases List.mem_singleton.mp hnew
        show (recv (P.ring chip) rxCurrent sgList).flatMap Prod.snd = f.body.take (sgLength sgList)
        have hplace : rxCurrent = rxPos.toNat + 4 := hcurrent rfl
        rw [recv_flatMap, hplace, hpos]
        exact (L.front hframes).2 _ hle
  | _ => cases hs

/-- The driver gives the place of a frame back, once the stack has taken it. -/
theorem RxInv.advance_step (h : RxInv C P frames place t s done cur q)
    (hs : rxCall C P s .advance = some (e, s')) :
    e = .none ∧ Receiving C P frames place t s' := by
  obtain ⟨hframes, haligned, hpc, hstored, hdelivered⟩ := h
  obtain ⟨chip, rxCurrent, rxSize, pc⟩ := s
  cases pc with
  | body status rxPos length ok =>
    obtain ⟨f, rfl, hpos, rfl, hok, -⟩ := hpc
    cases hs
    have hnext := nextRxPos_eq hpos haligned f
    have hcapr : ((caprOf C (nextRxPos C rxPos (BitVec.ofNat 32 f.body.length - 4))).toNat + 16)
        % 2 ^ C.exp = (place chip + frameFormat.size f) % 2 ^ C.exp := by
      rw [readPlace_caprOf, hnext, Nat.mod_mod]
    obtain ⟨hframes', hplace, -⟩ := L.setCapr chip _ f q hframes hcapr
    refine ⟨rfl, done ++ [f], [], q, hframes', ?_, ⟨rfl, ?_⟩, ?_, ?_⟩
    · rw [hplace]
      exact Nat.dvd_add haligned (four_dvd_size f)
    · rw [hplace]
      exact hnext
    · rw [List.append_nil]
      exact hstored
    · rw [List.append_nil]
      exact hdelivered
  | _ => cases hs

/-- The driver acknowledges, or resets the receiver after an overflow. -/
theorem RxInv.finish_step (h : RxInv C P frames place t s done cur q)
    (hs : rxCall C P s .finish = some (e, s')) :
    e = .restarted ∧ Receiving C P frames place ⟨[], []⟩ s' ∨
      e = .none ∧ Receiving C P frames place t s' := by
  obtain ⟨hframes, haligned, hpc, hstored, hdelivered⟩ := h
  obtain ⟨chip, rxCurrent, rxSize, pc⟩ := s
  cases pc with
  | tail status =>
    obtain ⟨rfl, hnotice⟩ := hpc
    simp only [rxCall] at hs
    split at hs
    · cases hs
      exact .inl ⟨rfl, L.restarted _ rfl ⟨_, rfl⟩⟩
    · cases hs
      exact .inr ⟨rfl, done, [], q, hframes, haligned, ⟨rfl, hnotice⟩, hstored, hdelivered⟩
  | _ => cases hs

end Step

/-- A step that stores nothing and announces nothing leaves the epoch as it is. -/
theorem RxEpoch.step_none (ts : List RxEpoch × RxEpoch) {c : RxCall}
    (hnext : ts.2.next (c, .none) = ts.2) : RxEpoch.step ts (c, .none) = ts := by
  rw [RxEpoch.step, if_neg (by rintro ⟨⟩), hnext]

/-- **One step** of the card or of the driver: another epoch begins, or this one goes on. -/
theorem Receiving.step (L : RxLaws C P frames place) {ts : List RxEpoch × RxEpoch}
    (h : Receiving C P frames place ts.2 s) {a : RxCall × RxEvent}
    (hs : (rxSystem C P chip).step s a s') :
    (RxEpoch.step ts a).1 ⊆ ts.1 ++ [ts.2] ∧
      Receiving C P frames place (RxEpoch.step ts a).2 s' := by
  obtain ⟨done, cur, q, h⟩ := h
  obtain ⟨c, e⟩ := a
  -- only a reset ends an epoch
  have hsame : ∀ {c e}, e ≠ RxEvent.restarted →
      RxEpoch.step ts (c, e) = (ts.1, ts.2.next (c, e)) := fun hne => if_neg hne
  have hnew : ∀ {c}, RxEpoch.step ts (c, .restarted) = (ts.1 ++ [ts.2], ⟨[], []⟩) := if_pos rfl
  have hleft : ts.1 ⊆ ts.1 ++ [ts.2] := List.subset_append_left ..
  cases c with
  | own stored =>
    obtain ⟨rfl, chip', hown, rfl⟩ := hs
    rw [hsame (by rintro ⟨⟩)]
    exact ⟨hleft, _, _, _, h.own_step (e := .none) L hown⟩
  | readIsr =>
    obtain ⟨hframes, haligned, hpc, hstored, hdelivered⟩ := h
    obtain ⟨chip, rxCurrent, rxSize, pc⟩ := s
    cases pc with
    | idle =>
      cases hs
      obtain ⟨rfl, hnotice⟩ := hpc
      rw [RxEpoch.step_none ts rfl]
      refine ⟨hleft, done, [], q, hframes, haligned, ⟨rfl, hnotice.mono fun hrok => ?_⟩, hstored,
        hdelivered⟩
      show ((P.isr chip).rok || (P.isr chip).rok) = true
      rw [Bool.or_self]
      exact hrok
    | _ => cases hs
  | ackIsr =>
    rcases h.ackIsr_step L hs with ⟨rfl, h'⟩ | ⟨rfl, h'⟩
    · rw [hnew]
      exact ⟨List.Subset.refl _, h'⟩
    · rw [RxEpoch.step_none ts rfl]
      exact ⟨hleft, h'⟩
  | test =>
    obtain ⟨rfl, h'⟩ := h.test_step L hs
    rw [RxEpoch.step_none ts rfl]
    exact ⟨hleft, h'⟩
  | header =>
    obtain ⟨hne, h'⟩ := h.header_step L hs
    rw [hsame hne]
    exact ⟨hleft, h'⟩
  | recv sgList =>
    obtain ⟨hne, h'⟩ := h.recv_step L hs
    rw [hsame hne]
    exact ⟨hleft, h'⟩
  | advance =>
    obtain ⟨rfl, h'⟩ := h.advance_step L hs
    rw [RxEpoch.step_none ts rfl]
    exact ⟨hleft, h'⟩
  | finish =>
    rcases h.finish_step L hs with ⟨rfl, h'⟩ | ⟨rfl, h'⟩
    · rw [hnew]
      exact ⟨List.Subset.refl _, h'⟩
    · rw [RxEpoch.step_none ts rfl]
      exact ⟨hleft, h'⟩
  | start =>
    obtain ⟨chip, rxCurrent, rxSize, pc⟩ := s
    cases pc with
    | idle =>
      cases hs
      rw [hnew]
      exact ⟨List.Subset.refl _, L.restarted _ rfl ⟨_, rfl⟩⟩
    | _ => cases hs

/-! ### Runs -/

variable {as : List (RxCall × RxEvent)}

/-- **Every run** keeps the invariant, and has kept it in the epochs that are over. -/
theorem receiving_run (L : RxLaws C P frames place) (hrun : (rxSystem C P chip).Run as s) :
    (∀ t ∈ (rxEpochs as).1, t.Served C) ∧ Receiving C P frames place (rxEpochs as).2 s := by
  refine hrun.invariant_trace (I := fun as s => (∀ t ∈ (rxEpochs as).1, t.Served C) ∧
    Receiving C P frames place (rxEpochs as).2 s) ?_ ?_
  · rintro s rfl
    refine ⟨fun t ht => absurd ht List.not_mem_nil, L.restarted _ rfl ⟨chip, rfl⟩⟩
  · rintro as s a s' - ⟨hpast, h⟩ hs
    obtain ⟨hsub, h'⟩ := h.step L hs
    rw [rxEpochs, List.foldl_concat, ← rxEpochs]
    refine ⟨fun t ht => ?_, h'⟩
    rcases List.mem_append.mp (hsub ht) with hold | hnow
    · exact hpast t hold
    · obtain ⟨done, cur, q, h⟩ := h
      rw [List.mem_singleton.mp hnow]
      exact h.served

/-- At most one frame is under way between the driver and the network stack. -/
theorem RxInv.length_cur_le (h : RxInv C P frames place t s done cur q) : cur.length ≤ 1 := by
  have hat := h.atPc
  unfold AtPc at hat
  split at hat
  · rw [hat.1]
    exact Nat.zero_le 1
  · rw [hat.1]
    exact Nat.zero_le 1
  · rw [hat.1]
    exact Nat.zero_le 1
  · rw [hat.1]
    exact Nat.zero_le 1
  · obtain ⟨f, rfl, -⟩ := hat
    exact Nat.le_refl 1
  · rw [hat.1]
    exact Nat.zero_le 1

/-- **The receive ring is a queue.**  In every run, with the card storing frames at any time, the
    frames that were stored since the card was started last are, in this order, those that the
    driver has come to and those in the ring behind them.  Of the first ones, those that were
    received without an error, and no others, were announced to the network stack, once each and in
    order, with their length; and the calls of `rltk8139_recv` copied their data.  So it was, too,
    each time the card was started again, which gives up the frames in the ring. -/
theorem rx_fifo (L : RxLaws C P frames place) (hrun : (rxSystem C P chip).Run as s) :
    (∀ t ∈ (rxEpochs as).1, t.Served C) ∧ ∃ done cur left,
      (rxEpochs as).2.stored = done ++ cur ++ left ∧
      frames s.chip = cur ++ left ∧ cur.length ≤ 1 ∧
      List.Forall₂ Delivers ((done ++ cur).filter (C.Ok ·)) (rxEpochs as).2.deliveries := by
  obtain ⟨hpast, done, cur, q, h⟩ := receiving_run L hrun
  exact ⟨hpast, done, cur, q, h.stored, h.frames_eq, h.length_cur_le, h.delivered⟩

/-- **No frame is left behind.**  When `rltk8139_deliver` is not running and `IR_ROK` is not set,
    every frame that was received without an error since the card was started last was
    announced. -/
theorem rx_announced (L : RxLaws C P frames place) (hrun : (rxSystem C P chip).Run as s)
    (hpc : s.pc = .idle) (hrok : (P.isr s.chip).rok = false) :
    List.Forall₂ Delivers ((rxEpochs as).2.stored.filter (C.Ok ·)) (rxEpochs as).2.deliveries := by
  obtain ⟨-, done, cur, q, h⟩ := receiving_run L hrun
  have hat := h.atPc
  rw [AtPc, hpc] at hat
  obtain ⟨rfl, hnotice⟩ := hat
  have hnone : q.filter (C.Ok ·) = [] := by
    rw [List.filter_eq_nil_iff]
    intro f hf hok
    have hset := hnotice f hf (of_decide_eq_true hok)
    rw [hrok] at hset
    cases hset
  have hdelivered := h.delivered
  rw [List.append_nil] at hdelivered
  rw [h.stored, List.append_nil, List.filter_append, hnone, List.append_nil]
  exact hdelivered

/-! ### A frame on its way -/

/-- A ring of 8 KiB, as a header file of the driver may fix it. -/
def ring8K : RxConfig := ⟨13, by decide, by decide, 1, 0, 8⟩

/-- A frame of two bytes and a CRC, received without an error. -/
def shortFrame : Frame := ⟨1, [10, 20, 0, 0, 0, 0], by decide⟩

/-- No interrupt is pending, so the driver has nothing to do. -/
def quietIsr : IntStatus := ⟨false, false, false, false, false, false⟩

/-- A card in WRAP mode, with nothing in its ring. -/
def blankCard : WrapChip ring8K :=
  ⟨RxChip.restart ⟨fun _ => 0, 0, 0, false, quietIsr⟩, [], 0, 0, .restart _⟩

/-- The run goes on with a step of such a card, or with one of the driver. -/
def wrapStep (x : List (RxCall × RxEvent) × RxState (WrapChip C)) :
    WrapEvent ⊕ RxCall → Option (List (RxCall × RxEvent) × RxState (WrapChip C))
  | .inl e => (x.2.chip.next e).map fun chip => (x.1 ++ [(.own e.stored, .none)], { x.2 with chip })
  | .inr c => (rxCall C (wrapPort C) x.2 c).map fun r => (x.1 ++ [(c, r.1)], r.2)

/-- A step of the witness is a step of the driver over the chip in `WRAP` mode. -/
theorem wrapStep_run {card : WrapChip C} {x x' : List (RxCall × RxEvent) × RxState (WrapChip C)}
    (h : (rxSystem C (wrapPort C) card).Run x.1 x.2) {l : WrapEvent ⊕ RxCall}
    (hs : wrapStep x l = some x') : (rxSystem C (wrapPort C) card).Run x'.1 x'.2 := by
  cases l with
  | inl e =>
    obtain ⟨chip, hnext, rfl⟩ := Option.map_eq_some_iff.mp hs
    exact h.step ⟨rfl, chip, ⟨e, rfl, hnext⟩, rfl⟩
  | inr c =>
    obtain ⟨r, hcall, rfl⟩ := Option.map_eq_some_iff.mp hs
    cases c with
    | own stored => cases hcall
    | _ => exact h.step hcall

/-- Steps one after the other, of the card and of the driver, are a run of the receiver. -/
theorem wrapSteps_run {card : WrapChip C} {ls : List (WrapEvent ⊕ RxCall)}
    {x x' : List (RxCall × RxEvent) × RxState (WrapChip C)}
    (h : (rxSystem C (wrapPort C) card).Run x.1 x.2) (hs : ls.foldlM wrapStep x = some x') :
    (rxSystem C (wrapPort C) card).Run x'.1 x'.2 := by
  induction ls generalizing x with
  | nil =>
    cases hs
    exact h
  | cons l ls ih =>
    obtain ⟨x₁, hstep, hrest⟩ := Option.bind_eq_some_iff.mp hs
    exact ih (wrapStep_run h hstep) hrest

/-- The frame is stored while the driver is in the loop for an earlier interrupt. -/
def shortFrameSteps : List (WrapEvent ⊕ RxCall) :=
  [.inl (.interrupt ⟨false, false, false, true, false, false⟩), .inr .readIsr, .inr .ackIsr,
    .inl .copy, .inr .test, .inl (.store shortFrame), .inr .header, .inr (.recv [⟨100, 2⟩]),
    .inr .advance, .inr .test, .inr .finish, .inr .readIsr, .inr .ackIsr, .inr .test, .inr .finish]

/-- A frame of two bytes is stored, announced and delivered, by a card that meets the hypotheses. -/
theorem shortFrame_run : ∃ as s, (rxSystem ring8K (wrapPort ring8K) blankCard).Run as s ∧
    s.pc = .idle ∧ ((wrapPort ring8K).isr s.chip).rok = false ∧
    rxEpochs as = ([], ⟨[shortFrame], [(2, [([⟨100, 2⟩], [(100, [10, 20])])])]⟩) := by
  obtain ⟨x, hex, hx⟩ : ∃ x, shortFrameSteps.foldlM wrapStep ([],
      ⟨rltk8139Start ring8K (wrapPort ring8K) blankCard, 0, 0, .idle⟩) = some x ∧
      x.2.pc = .idle ∧ ((wrapPort ring8K).isr x.2.chip).rok = false ∧
      rxEpochs x.1 = ([], ⟨[shortFrame], [(2, [([⟨100, 2⟩], [(100, [10, 20])])])]⟩) :=
    ⟨_, rfl, rfl, rfl, rfl⟩
  exact ⟨x.1, x.2, wrapSteps_run (.init rfl) hex, hx⟩

/-- A frame of two bytes goes through in order. -/
theorem rx_fifo_shortFrame : ∃ as, ∃ s : RxState (WrapChip ring8K), ∃ done cur left,
    rxEpochs as = ([], ⟨[shortFrame], [(2, [([⟨100, 2⟩], [(100, [10, 20])])])]⟩) ∧
    (rxEpochs as).2.stored = done ++ cur ++ left ∧
    s.chip.frames = cur ++ left ∧ cur.length ≤ 1 ∧
    List.Forall₂ Delivers ((done ++ cur).filter (ring8K.Ok ·)) (rxEpochs as).2.deliveries := by
  obtain ⟨as, s, hrun, -, -, hepochs⟩ := shortFrame_run
  obtain ⟨-, done, cur, left, hfifo⟩ := rx_fifo (wrapPort_laws ring8K) hrun
  exact ⟨as, s, done, cur, left, hepochs, hfifo⟩

/-- A frame of two bytes is announced with its length and copied with its bytes. -/
theorem rx_announced_shortFrame : ∃ as,
    rxEpochs as = ([], ⟨[shortFrame], [(2, [([⟨100, 2⟩], [(100, [10, 20])])])]⟩) ∧
    List.Forall₂ Delivers ((rxEpochs as).2.stored.filter (ring8K.Ok ·))
      (rxEpochs as).2.deliveries := by
  obtain ⟨as, s, hrun, hpc, hrok, hepochs⟩ := shortFrame_run
  exact ⟨as, hepochs, rx_announced (wrapPort_laws ring8K) hrun hpc hrok⟩

end Ecos.Eth
