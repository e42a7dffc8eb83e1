import Ecos.Eth.Rltk8139
import Ecos.Lib.RingLog

namespace Ecos.Eth

open Ecos.Lib

/-!
# The card behind the receive ring

What the receiver of the 8139 driver sees of the card, and what it relies on.  The card is a
parameter: the accesses of the driver to its registers and to the memory of the ring, and what it
does on its own.

* `RxConfig`, `Frame`, `frameFormat` — the length of the ring, and a frame as the card stores it;
* `RxPort` — the accesses, over the states of the card; `rltk8139Start` — those that start it;
* `RxLaws` — the frames between `CAPR` and `CBR` lie in the ring, `BUFE` says that there are none,
  `IR_ROK` comes with a frame, and a software reset leaves the ring empty;
* `RxChip`, `WrapChip` — a card whose ring is in WRAP mode: a frame that starts in the ring is not
  split, and one that does not fit is dropped; `wrapPort_laws` — it is as the driver needs it.
-/

/-! ### Frames -/

/-- What the header file of the driver fixes: the length of the receive ring and the bits of the
    registers. -/
structure RxConfig where
  /-- `RX_BUF_LEN` is `2 ^ exp`. -/
  exp : Nat
  two_le : 2 ≤ exp
  le : exp ≤ 16
  HDR_ROK : BitVec 32
  RXCFG : BitVec 32
  AM : BitVec 32

/-- A frame in the ring: the status, and the data with the CRC. -/
structure Frame where
  status : BitVec 16
  body : List UInt8
  length_lt : body.length < 0xFFF0
  deriving DecidableEq

/-- The packet header in front of a frame in the ring: its length in the upper half, its status in
    the lower one. -/
def Frame.header (f : Frame) : BitVec 32 := BitVec.ofNat 16 f.body.length ++ f.status

/-- The bytes of a word as the chip puts them into the ring, in little-endian order. -/
def le32Bytes (w : BitVec 32) : List UInt8 :=
  [⟨w.extractLsb' 0 8⟩, ⟨w.extractLsb' 8 8⟩, ⟨w.extractLsb' 16 8⟩, ⟨w.extractLsb' 24 8⟩]

/-- `HAL_LE32TOC` of the word at `p`: four bytes of the ring, the lowest one first. -/
def le32 (ring : Nat → UInt8) (p : Nat) : BitVec 32 :=
  ((ring (p + 3)).toBitVec ++ (ring (p + 2)).toBitVec)
    ++ ((ring (p + 1)).toBitVec ++ (ring p).toBitVec)

/-- How the chip stores a frame: the header, then the body, in whole words. -/
def frameFormat : RecordFormat Frame UInt8 where
  bytes f := le32Bytes f.header ++ f.body
  size f := (f.body.length + 7) / 4 * 4
  length_le f := by
    rw [List.length_append]
    show 4 + f.body.length ≤ _
    omega
  size_pos f := by omega

variable (C : RxConfig)

/-- Was the frame received without an error?  The driver looks at `HDR_ROK` in its header. -/
def RxConfig.Ok (f : Frame) : Prop := f.header &&& C.HDR_ROK ≠ 0

instance (f : Frame) : Decidable (C.Ok f) := inferInstanceAs (Decidable (_ ≠ _))

/-- The ring has a whole number of dwords, so a header never lies across its end. -/
theorem RxConfig.four_dvd (C : RxConfig) : 4 ∣ 2 ^ C.exp := Nat.pow_dvd_pow 2 C.two_le

/-- The 16-bit registers wrap around together with the ring. -/
theorem RxConfig.dvd (C : RxConfig) : 2 ^ C.exp ∣ 2 ^ 16 := Nat.pow_dvd_pow 2 C.le

/-- The ring is not empty, so counting modulo its length makes sense. -/
theorem RxConfig.pos (C : RxConfig) : 0 < 2 ^ C.exp := Nat.two_pow_pos C.exp

/-- The ring is not longer than 64K, so a place in it fits into the 16 bits of `CAPR`. -/
theorem RxConfig.le_size (C : RxConfig) : 2 ^ C.exp ≤ 2 ^ 16 := Nat.le_of_dvd (by decide) C.dvd

/-- A frame takes whole words in the ring: the driver rounds its length up to a dword. -/
theorem four_dvd_size (f : Frame) : 4 ∣ frameFormat.size f := Nat.dvd_mul_left 4 _

/-- What was stored as a word is read as that word. -/
theorem le32_of_slice {ring : Nat → UInt8} {p : Nat} {x : BitVec 32}
    (h : slice ring p 4 = le32Bytes x) : le32 ring p = x := by
  have hbytes : [ring p, ring (p + 1), ring (p + 2), ring (p + 3)] = le32Bytes x := h
  simp only [le32Bytes, List.cons.injEq, and_true] at hbytes
  obtain ⟨h₀, h₁, h₂, h₃⟩ := hbytes
  unfold le32
  rw [h₀, h₁, h₂, h₃]
  apply BitVec.eq_of_getLsbD_eq
  intro i hi
  simp only [BitVec.getLsbD_append, BitVec.getLsbD_extractLsb']
  rcases Nat.lt_or_ge i 8 with h8 | h8
  · simp [h8, Nat.lt_trans h8 (show 8 < 16 by decide)]
  rcases Nat.lt_or_ge i 16 with h16 | h16
  · simp [h16, show ¬i < 8 by omega, show i - 8 < 8 by omega, show 8 + (i - 8) = i by omega]
  rcases Nat.lt_or_ge i 24 with h24 | h24
  · simp [show ¬i < 16 by omega, show i - 16 < 8 by omega, show 16 + (i - 16) = i by omega]
  · simp [show ¬i < 16 by omega, show ¬i - 16 < 8 by omega, show i - 16 - 8 < 8 by omega,
      show 24 + (i - 16 - 8) = i by omega]

/-! ### The accesses -/

/-- The card as the receiver of the driver sees it, over its states. -/
structure RxPort (σ : Type) where
  /-- What the card does on its own, at any time; it may put a frame into the ring. -/
  own : σ → Option Frame → σ → Prop
  /-- The memory from `rx_ring` on. -/
  ring : σ → Nat → UInt8
  /-- `INW(ISR)` -/
  isr : σ → IntStatus
  /-- `OUTW(..., ISR)` -/
  setIsr : IntStatus → σ → σ
  /-- `INB(CR) & BUFE` -/
  bufe : σ → Bool
  /-- `INW(CAPR)` -/
  capr : σ → BitVec 16
  /-- `OUTW(..., CAPR)` -/
  setCapr : BitVec 16 → σ → σ
  /-- `rltk8139_stop` -/
  stop : σ → σ
  /-- `OUTB(RST, CR)`, and the loop that waits until the reset is done -/
  reset : σ → σ
  /-- `OUTL(rx_ring, RBSTART)` -/
  setRbstart : σ → σ
  /-- `OUTB(INB(CR) | (TE|RE), CR)` -/
  enable : σ → σ
  /-- `OUTL(..., RCR)` -/
  setRcr : BitVec 32 → σ → σ

variable {σ : Type}

/-- `rltk8139_start`, as far as the receiver goes: reset, buffer address and receive
    configuration. -/
def rltk8139Start (P : RxPort σ) (chip : σ) : σ :=
  let chip := P.setRbstart (P.reset chip)
  let chip := P.setRcr (C.RXCFG ||| C.AM) (P.enable chip)
  P.enable chip

/-- `rltk8139_reset`: `rltk8139_stop`, and then `rltk8139_start` again -/
def rltk8139Reset (P : RxPort σ) (chip : σ) : σ := rltk8139Start C P (P.stop chip)

/-- The word at the place is the mark of a frame that is still being copied: a length of
    `0xFFF0`. -/
def Marked (ring : Nat → UInt8) (p : Nat) : Prop := le32 ring p >>> 16 = 0xFFF0

/-- **What the driver relies on.**  In the state `chip` of the card, `frames chip` are the frames
    that it has stored and that were not given back yet, the oldest one first; and `place chip`
    counts the bytes of the ring that were given back, so that the frames begin behind them. -/
structure RxLaws (P : RxPort σ) (frames : σ → List Frame) (place : σ → Nat) : Prop where
  /-- The frames lie in the ring, one behind the other and each in one piece; none of them is
      overwritten. -/
  logged : ∀ chip, ∃ w, frameFormat.Logged (2 ^ C.exp) (P.ring chip) (place chip) (frames chip) w
  /-- A frame that was received without an error has a CRC. -/
  sound : ∀ chip, ∀ f ∈ frames chip, C.Ok f → 4 ≤ f.body.length
  /-- `CAPR` points 16 bytes before the frames. -/
  capr : ∀ chip, ((P.capr chip).toNat + 16) % 2 ^ C.exp = place chip % 2 ^ C.exp
  /-- `BUFE` says that there are no frames. -/
  bufe : ∀ chip, P.bufe chip = true → frames chip = []
  /-- Without `BUFE` there is one, or one that is being copied, with the mark. -/
  copying : ∀ chip, P.bufe chip = false → frames chip = [] →
    Marked (P.ring chip) (place chip % 2 ^ C.exp)
  /-- On its own, the card adds frames behind the others, and says so with `IR_ROK` when they were
      received without an error; it does not take this bit back. -/
  own : ∀ chip stored chip', P.own chip stored chip' →
    frames chip' = frames chip ++ stored.toList ∧ place chip' = place chip ∧
    ((P.isr chip).rok = true → (P.isr chip').rok = true) ∧
    ∀ f ∈ stored, C.Ok f → (P.isr chip').rok = true
  /-- The mark stays until there is a frame. -/
  mark : ∀ chip chip', P.own chip none chip' → frames chip = [] →
    Marked (P.ring chip) (place chip % 2 ^ C.exp) → Marked (P.ring chip') (place chip % 2 ^ C.exp)
  /-- Writing `ISR` clears the bits that are written, and that is all. -/
  setIsr : ∀ chip bits, frames (P.setIsr bits chip) = frames chip ∧
    place (P.setIsr bits chip) = place chip ∧
    (P.isr (P.setIsr bits chip)).rok = ((P.isr chip).rok && !bits.rok)
  /-- When `CAPR` is moved on by a frame, this frame is given back, and that is all. -/
  setCapr : ∀ chip capr f fs, frames chip = f :: fs →
    (capr.toNat + 16) % 2 ^ C.exp = (place chip + frameFormat.size f) % 2 ^ C.exp →
    frames (P.setCapr capr chip) = fs ∧
    place (P.setCapr capr chip) = place chip + frameFormat.size f ∧
    (P.isr (P.setCapr capr chip)).rok = (P.isr chip).rok
  /-- A software reset leaves the ring empty, with `CAPR` for its start. -/
  reset : ∀ chip, frames (P.reset chip) = [] ∧ place (P.reset chip) = 0
  /-- The other accesses that start the card leave the ring alone. -/
  setRbstart : ∀ chip, frames (P.setRbstart chip) = frames chip ∧
    place (P.setRbstart chip) = place chip
  enable : ∀ chip, frames (P.enable chip) = frames chip ∧ place (P.enable chip) = place chip
  setRcr : ∀ chip rcr, frames (P.setRcr rcr chip) = frames chip ∧
    place (P.setRcr rcr chip) = place chip

/-- When the card was started there are no frames, and the next one comes to the start of the
    ring. -/
theorem RxLaws.start {P : RxPort σ} {frames : σ → List Frame} {place : σ → Nat}
    (L : RxLaws C P frames place) (chip : σ) :
    frames (rltk8139Start C P chip) = [] ∧ place (rltk8139Start C P chip) = 0 := by
  unfold rltk8139Start
  dsimp only
  rw [(L.enable _).1, (L.enable _).2, (L.setRcr _ _).1, (L.setRcr _ _).2, (L.enable _).1,
    (L.enable _).2, (L.setRbstart _).1, (L.setRbstart _).2]
  exact L.reset chip

/-! ### A card in WRAP mode -/

/-- The registers and the ring of such a card. -/
structure RxChip where
  /-- The memory from `RBSTART` on. -/
  ring : Nat → UInt8
  /-- `CBR` -/
  cbr : Nat
  /-- `CAPR` -/
  capr : BitVec 16
  /-- Is a frame being copied into the ring? -/
  copying : Bool
  /-- `ISR` -/
  isr : IntStatus

/-- The place that `CAPR` stands for: the driver writes the register 16 below the place it has come
    to. -/
def RxChip.readPlace (chip : RxChip) : Nat := (chip.capr.toNat + 16) % 2 ^ C.exp

/-- `BUFE` of this card: the driver has come to the place where the next frame is written, and none
    is being copied. -/
def RxChip.bufe (chip : RxChip) : Bool := chip.cbr = chip.readPlace C ∧ chip.copying = false

/-- The number of places that the driver has not given back. -/
def RxChip.unread (chip : RxChip) : Nat :=
  (chip.cbr + 2 ^ C.exp - chip.readPlace C) % 2 ^ C.exp

/-- The chip begins to copy a frame: its length reads as `0xFFF0`. -/
def RxChip.copy (chip : RxChip) : RxChip :=
  { chip with
    ring := overwrite chip.ring chip.cbr (le32Bytes 0xFFF00000)
    copying := true }

/-- The card has copied a frame: its bytes are in the ring, and `CBR` is behind it. -/
def RxChip.store (chip : RxChip) (f : Frame) : RxChip :=
  { chip with
    ring := overwrite chip.ring chip.cbr (frameFormat.bytes f)
    cbr := (chip.cbr + frameFormat.size f) % 2 ^ C.exp
    copying := false
    isr := { chip.isr with rok := chip.isr.rok || C.Ok f } }

/-- The card after a software reset: nothing is in the ring, and both places are at its start. -/
def RxChip.restart (chip : RxChip) : RxChip :=
  { chip with cbr := 0, capr := 0xFFF0, copying := false }

/-- More bits of `ISR` are set, and none is cleared by it. -/
def IntStatus.set (isr bits : IntStatus) : IntStatus :=
  ⟨isr.serr || bits.serr, isr.ter || bits.ter, isr.tok || bits.tok, isr.rok || bits.rok,
    isr.rxovw || bits.rxovw, isr.fovw || bits.fovw⟩

/-- `OUTW(status, ISR)` clears the bits that are 1 in `status`. -/
def IntStatus.clear (isr bits : IntStatus) : IntStatus :=
  ⟨isr.serr && !bits.serr, isr.ter && !bits.ter, isr.tok && !bits.tok, isr.rok && !bits.rok,
    isr.rxovw && !bits.rxovw, isr.fovw && !bits.fovw⟩

variable {C} {chip : RxChip} {f : Frame} {fs : List Frame} {r w : Nat}

/-- The chip and the ring: `fs` are the frames between `CAPR` and `CBR`, from position `r` up to
    position `w`. -/
structure RxChip.Holds (C : RxConfig) (chip : RxChip) (fs : List Frame) (r w : Nat) : Prop where
  logged : frameFormat.Logged (2 ^ C.exp) chip.ring r fs w
  aligned : 4 ∣ r
  aligned_end : 4 ∣ w
  cbr_eq : chip.cbr = w % 2 ^ C.exp
  readPlace_eq : chip.readPlace C = r % 2 ^ C.exp
  space : w < r + 2 ^ C.exp
  sound : ∀ f ∈ fs, C.Ok f → 4 ≤ f.body.length
  copying : chip.copying = true → le32 chip.ring chip.cbr >>> 16 = 0xFFF0

/-- The bytes that were not read yet are those between the two positions. -/
theorem RxChip.Holds.unread_eq (h : chip.Holds C fs r w) : chip.unread C = w - r := by
  have hpos := C.pos
  have hspace := h.space
  have hle := h.logged.le
  rw [RxChip.unread, h.cbr_eq, h.readPlace_eq]
  have hr := Nat.mod_add_div r (2 ^ C.exp)
  have hw := Nat.mod_add_div w (2 ^ C.exp)
  have hrlt := Nat.mod_lt r hpos
  have hwlt := Nat.mod_lt w hpos
  generalize 2 ^ C.exp = L at *
  have hsub : w % L + L - r % L = (w - r) + L * (r / L) + L - L * (w / L) := by omega
  have hdiv : w / L = r / L ∨ w / L = r / L + 1 := by
    have hlo : r / L ≤ w / L := Nat.div_le_div_right hle
    have hhi : w / L < r / L + 2 := by
      rw [Nat.div_lt_iff_lt_mul hpos, Nat.add_mul, Nat.mul_comm (r / L)]
      omega
    omega
  rw [hsub]
  rcases hdiv with heq | heq
  · rw [heq, show w - r + L * (r / L) + L - L * (r / L) = w - r + L by omega,
      Nat.add_mod_right, Nat.mod_eq_of_lt (by omega)]
  · rw [heq, Nat.mul_succ, show w - r + L * (r / L) + L - (L * (r / L) + L) = w - r by omega,
      Nat.mod_eq_of_lt (by omega)]

/-- `BUFE` says that there is no frame, and that none is being copied. -/
theorem RxChip.Holds.bufe_iff (h : chip.Holds C fs r w) :
    chip.bufe C = true ↔ fs = [] ∧ chip.copying = false := by
  have hspace := h.space
  have hle := h.logged.le
  rw [RxChip.bufe, decide_eq_true_iff, h.logged.eq_nil_iff, h.cbr_eq, h.readPlace_eq]
  refine and_congr_left fun _ => ⟨fun heq => ?_, fun heq => by rw [heq]⟩
  have hzero := Nat.sub_mod_eq_zero_of_mod_eq heq
  rw [Nat.mod_eq_of_lt (by omega)] at hzero
  omega

/-- The receiver works on the ring, `CBR`, `CAPR` and the mark of a frame being copied. -/
theorem RxChip.Holds.congr (h : chip.Holds C fs r w) {chip' : RxChip}
    (hring : chip'.ring = chip.ring) (hcbr : chip'.cbr = chip.cbr) (hcapr : chip'.capr = chip.capr)
    (hcopying : chip'.copying = true → chip.copying = true) : chip'.Holds C fs r w where
  logged := by rw [hring]; exact h.logged
  aligned := h.aligned
  aligned_end := h.aligned_end
  cbr_eq := by rw [hcbr]; exact h.cbr_eq
  readPlace_eq := by rw [RxChip.readPlace, hcapr]; exact h.readPlace_eq
  space := h.space
  sound := h.sound
  copying hc := by rw [hring, hcbr]; exact h.copying (hcopying hc)

/-- The word that marks a frame being copied is read back with the length `0xFFF0`. -/
theorem le32_copying (ring : Nat → UInt8) (p : Nat) :
    le32 (overwrite ring p (le32Bytes 0xFFF00000)) p >>> 16 = 0xFFF0 := by
  rw [le32_of_slice (RecordFormat.slice_overwrite_self ring p (le32Bytes 0xFFF00000))]
  decide

/-- A frame that is being copied is not in the ring yet. -/
theorem RxChip.Holds.copy (h : chip.Holds C fs r w) : chip.copy.Holds C fs r w where
  logged := by
    have hspace := h.space
    obtain ⟨k, hk⟩ := h.aligned
    obtain ⟨l, hl⟩ := h.aligned_end
    obtain ⟨m, hm⟩ := C.four_dvd
    show frameFormat.Logged _ (overwrite chip.ring chip.cbr (le32Bytes 0xFFF00000)) r fs w
    rw [h.cbr_eq]
    refine h.logged.write ?_
    show w + 4 ≤ _
    omega
  aligned := h.aligned
  aligned_end := h.aligned_end
  cbr_eq := h.cbr_eq
  readPlace_eq := h.readPlace_eq
  space := h.space
  sound := h.sound
  copying _ := le32_copying _ _

/-- A frame that was stored is behind the others, and these are as they were. -/
theorem RxChip.Holds.store (h : chip.Holds C fs r w)
    (hspace : chip.unread C + frameFormat.size f < 2 ^ C.exp) (hf : C.Ok f → 4 ≤ f.body.length) :
    (chip.store C f).Holds C (fs ++ [f]) r (w + frameFormat.size f) := by
  have hle := h.logged.le
  rw [h.unread_eq] at hspace
  refine ⟨?_, h.aligned, Nat.dvd_add h.aligned_end (four_dvd_size f), ?_, h.readPlace_eq,
    by omega, ?_, ?_⟩
  · show frameFormat.Logged _ (overwrite chip.ring chip.cbr _) r _ _
    rw [h.cbr_eq]
    exact h.logged.store (by omega)
  · show (chip.cbr + frameFormat.size f) % _ = _
    rw [h.cbr_eq, Nat.mod_add_mod]
  · intro g hg hok
    rcases List.mem_append.mp hg with hold | hnew
    · exact h.sound g hold hok
    · cases List.mem_singleton.mp hnew
      exact hf hok
  · rintro ⟨⟩

/-- After a reset the ring is empty, whatever it held. -/
theorem RxChip.Holds.restart (chip : RxChip) : chip.restart.Holds C [] 0 0 := by
  refine ⟨rfl, Nat.dvd_zero 4, Nat.dvd_zero 4, (Nat.zero_mod _).symm, ?_, ?_, ?_, ?_⟩
  · show (0xFFF0 + 16) % 2 ^ C.exp = 0 % 2 ^ C.exp
    rw [Nat.zero_mod]
    exact Nat.mod_eq_zero_of_dvd C.dvd
  · rw [Nat.zero_add]
    exact C.pos
  · rintro g ⟨⟩
  · rintro ⟨⟩

/-- The first frame is given back, and the others are still there. -/
theorem RxChip.Holds.advance (h : chip.Holds C (f :: fs) r w) {capr : BitVec 16}
    (hcapr : (capr.toNat + 16) % 2 ^ C.exp = (r + frameFormat.size f) % 2 ^ C.exp) :
    ({ chip with capr } : RxChip).Holds C fs (r + frameFormat.size f) w where
  logged := h.logged.2
  aligned := Nat.dvd_add h.aligned (four_dvd_size f)
  aligned_end := h.aligned_end
  cbr_eq := h.cbr_eq
  readPlace_eq := hcapr
  space := by
    have hspace := h.space
    omega
  sound g hg := h.sound g (List.mem_cons_of_mem f hg)
  copying := h.copying

/-- A card in WRAP mode, with the frames in its ring: the structure carries that it holds them. -/
structure WrapChip (C : RxConfig) where
  chip : RxChip
  frames : List Frame
  read : Nat
  write : Nat
  holds : chip.Holds C frames read write

/-- What the card does on its own, without an access of the driver. -/
inductive WrapEvent
  /-- It begins to copy a frame. -/
  | copy
  /-- It has copied the frame. -/
  | store (f : Frame)
  /-- It gives up on the frame. -/
  | drop
  /-- It has some other cause for an interrupt. -/
  | interrupt (bits : IntStatus)

/-- The frame that it puts into the ring, if it puts one there. -/
def WrapEvent.stored : WrapEvent → Option Frame
  | .store f => some f
  | .copy | .drop | .interrupt _ => none

namespace WrapChip

/-- A step of its own; a frame that does not fit is not stored. -/
def next (s : WrapChip C) : WrapEvent → Option (WrapChip C)
  | .copy => some ⟨s.chip.copy, s.frames, s.read, s.write, s.holds.copy⟩
  | .store f =>
    if h : s.chip.unread C + frameFormat.size f < 2 ^ C.exp ∧ (C.Ok f → 4 ≤ f.body.length) then
      some ⟨s.chip.store C f, s.frames ++ [f], s.read, s.write + frameFormat.size f,
        s.holds.store h.1 h.2⟩
    else none
  | .drop => some ⟨{ s.chip with copying := false }, s.frames, s.read, s.write,
      s.holds.congr rfl rfl rfl (by rintro ⟨⟩)⟩
  | .interrupt bits => some ⟨{ s.chip with isr := s.chip.isr.set bits }, s.frames, s.read, s.write,
      s.holds.congr rfl rfl rfl id⟩

/-- The bits are cleared by writing them, and nothing else changes: the frames in the ring least of
    all. -/
def setIsr (bits : IntStatus) (s : WrapChip C) : WrapChip C :=
  ⟨{ s.chip with isr := s.chip.isr.clear bits }, s.frames, s.read, s.write,
    s.holds.congr rfl rfl rfl id⟩

/-- `CAPR` only moves on by a frame; another value is not one that the driver writes. -/
def setCapr (capr : BitVec 16) (s : WrapChip C) : WrapChip C :=
  match hfs : s.frames with
  | [] => s
  | f :: fs =>
    if h : (capr.toNat + 16) % 2 ^ C.exp = (s.read + frameFormat.size f) % 2 ^ C.exp then
      ⟨{ s.chip with capr }, fs, s.read + frameFormat.size f, s.write,
        RxChip.Holds.advance (hfs ▸ s.holds) h⟩
    else s

/-- A software reset empties the ring, and both positions start again. -/
def reset (s : WrapChip C) : WrapChip C := ⟨s.chip.restart, [], 0, 0, .restart s.chip⟩

/-- The driver gives the place of the first frame back. -/
theorem setCapr_cons {s : WrapChip C} (hfs : s.frames = f :: fs) {capr : BitVec 16}
    (h : (capr.toNat + 16) % 2 ^ C.exp = (s.read + frameFormat.size f) % 2 ^ C.exp) :
    (s.setCapr capr).frames = fs ∧ (s.setCapr capr).read = s.read + frameFormat.size f ∧
      (s.setCapr capr).chip.isr = s.chip.isr := by
  unfold setCapr
  split
  · next hnil =>
    rw [hfs] at hnil
    cases hnil
  · next g gs hcons =>
    rw [hfs] at hcons
    cases hcons
    rw [dif_pos h]
    exact ⟨rfl, rfl, rfl⟩

end WrapChip

/-- The accesses to it, as the parameter of the driver: one card that meets the hypotheses. -/
def wrapPort (C : RxConfig) : RxPort (WrapChip C) where
  own s stored s' := ∃ e : WrapEvent, e.stored = stored ∧ s.next e = some s'
  ring s := s.chip.ring
  isr s := s.chip.isr
  setIsr := WrapChip.setIsr
  bufe s := s.chip.bufe C
  capr s := s.chip.capr
  setCapr := WrapChip.setCapr
  stop s := s
  reset := WrapChip.reset
  setRbstart s := s
  enable s := s
  setRcr _ s := s

/-- Where the frames end when there are none: at the place where the driver reads. -/
theorem WrapChip.cbr_of_nil {s : WrapChip C} (hfs : s.frames = []) :
    s.chip.cbr = s.read % 2 ^ C.exp := by
  rw [s.holds.cbr_eq, s.holds.logged.eq_nil_iff.mp hfs]

/-- A step of its own adds the frame that it stores, and keeps the others. -/
theorem WrapChip.own_laws {s s' : WrapChip C} {e : WrapEvent} (hs : s.next e = some s') :
    s'.frames = s.frames ++ e.stored.toList ∧ s'.read = s.read ∧
      (s.chip.isr.rok = true → s'.chip.isr.rok = true) ∧
      ∀ f ∈ e.stored, C.Ok f → s'.chip.isr.rok = true := by
  cases e with
  | copy =>
    cases hs
    exact ⟨(List.append_nil _).symm, rfl, id, fun f hf => by cases hf⟩
  | drop =>
    cases hs
    exact ⟨(List.append_nil _).symm, rfl, id, fun f hf => by cases hf⟩
  | interrupt bits =>
    cases hs
    refine ⟨(List.append_nil _).symm, rfl, fun hrok => ?_, fun f hf => by cases hf⟩
    show (s.chip.isr.rok || bits.rok) = true
    rw [hrok, Bool.true_or]
  | store f =>
    simp only [next] at hs
    split at hs
    · cases hs
      refine ⟨rfl, rfl, fun hrok => ?_, fun g hg hok => ?_⟩
      · show (s.chip.isr.rok || C.Ok f) = true
        rw [hrok, Bool.true_or]
      · obtain rfl : f = g := Option.some.inj hg
        show (s.chip.isr.rok || C.Ok f) = true
        rw [decide_eq_true hok, Bool.or_true]
    · cases hs

/-- **A card in WRAP mode** is as the driver needs it, so that the hypotheses on the card can be
    met. -/
theorem wrapPort_laws (C : RxConfig) :
    RxLaws C (wrapPort C) WrapChip.frames WrapChip.read where
  logged s := ⟨s.write, s.holds.logged⟩
  sound s := s.holds.sound
  capr s := s.holds.readPlace_eq
  bufe s hbufe := (s.holds.bufe_iff.mp hbufe).1
  copying s hbufe hfs := by
    -- an empty ring whose bit is not set has a frame on its way in
    have hcopying : s.chip.copying = true := by
      cases hc : s.chip.copying with
      | true => rfl
      | false =>
        have hset : s.chip.bufe C = true := s.holds.bufe_iff.mpr ⟨hfs, hc⟩
        rw [show s.chip.bufe C = false from hbufe] at hset
        cases hset
    rw [← WrapChip.cbr_of_nil hfs]
    exact s.holds.copying hcopying
  own s stored s' hown := by
    obtain ⟨e, rfl, hs⟩ := hown
    exact WrapChip.own_laws hs
  mark s s' hown hfs hmark := by
    obtain ⟨e, hnone, hs⟩ := hown
    cases e with
    | copy =>
      cases hs
      rw [← WrapChip.cbr_of_nil hfs]
      exact le32_copying s.chip.ring s.chip.cbr
    | store f => cases hnone
    | drop =>
      cases hs
      exact hmark
    | interrupt bits =>
      cases hs
      exact hmark
  setIsr s bits := ⟨rfl, rfl, rfl⟩
  setCapr s capr f fs hfs hcapr := by
    obtain ⟨hframes, hread, hisr⟩ := WrapChip.setCapr_cons hfs hcapr
    exact ⟨hframes, hread, congrArg IntStatus.rok hisr⟩
  reset s := ⟨rfl, rfl⟩
  setRbstart s := ⟨rfl, rfl⟩
  enable s := ⟨rfl, rfl⟩
  setRcr s rcr := ⟨rfl, rfl⟩

end Ecos.Eth
